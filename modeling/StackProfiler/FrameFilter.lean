/-!
# Frame filters

Which frame names are left out of a profile: names listed exactly, and names that begin with a
listed text.
-/

namespace StackProfiler

/-- The name of the address zero. -/
def nullSymbol : String := "[null]"

/-- The name of an address below the kernel's that could not be resolved. -/
def unknownSymbol : String := "[unknown]"

/-- The name of an unresolved address in the kernel's half of the address space. -/
def kernelSymbol : String := "[kernel]"

/-- Frames that are removed from every sample before it is counted. -/
structure FrameFilter where
  exact : List String := []
  beginnings : List String := []
deriving DecidableEq, Repr

namespace FrameFilter

def none : FrameFilter := {}

/-- Also removes the given name. -/
def withExact (f : FrameFilter) (name : String) : FrameFilter :=
  { f with exact := f.exact ++ [name] }

/-- Also removes every name with the given beginning. -/
def withBeginning (f : FrameFilter) (text : String) : FrameFilter :=
  { f with beginnings := f.beginnings ++ [text] }

/-- Removes the names that stand for unresolved addresses in user space. -/
def sentinels : FrameFilter :=
  { exact := [unknownSymbol, nullSymbol] }

/-- Also removes the signal trampoline, the sampler itself and the unwinder beneath it. -/
def selfProfiling : FrameFilter :=
  { exact := [unknownSymbol, nullSymbol, "__restore_rt"]
    beginnings :=
      ["pyrograph::profiling::timer_sampler::", "pyrograph::profiling::sample_buffer::",
       "backtrace::", "<backtrace::", "_Unwind_"] }

def removes (f : FrameFilter) (name : String) : Bool :=
  f.exact.contains name || f.beginnings.any fun text => text.toList.isPrefixOf name.toList

end FrameFilter

end StackProfiler
