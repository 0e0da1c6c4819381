import StackProfiler.Text.Blank
import StackProfiler.Text.Numeral

/-!
# The kernel's restriction of sampling
-/

namespace StackProfiler

/-- The highest level at which ordinary users may still sample their own processes. -/
def maxUnprivilegedParanoid : Int := 2

/-- The level stated in the text of the kernel's setting. -/
def paranoidLevel? (text : String) : Option Int :=
  Text.signed? 32 (Text.trim text.toList)

end StackProfiler
