/-!
# The built-in workload

Three loops that share the processor time about as 70 : 20 : 10, so that the shape of a correct
flame graph is known beforehand.
-/

namespace StackProfiler.Workload

/-- How many rounds are run if nothing else is asked for. -/
def defaultIterations : Nat := 200

/-- The result of so many steps of a loop. -/
def iterate (step : Float → Float) : (steps : Nat) → Float → Float
  | 0, x => x
  | steps + 1, x => iterate step steps (step x)

/-- The loop that takes most of the time. -/
def hot (steps : Nat) : Float :=
  iterate (fun x => x * 1.0000001 + 0.0000001) steps 1.0

/-- The loop that takes a fifth of the time. -/
def medium (steps : Nat) : Float :=
  iterate (fun x => x * 0.9999999 + 0.0000002) steps 2.0

/-- The loop that takes a tenth of the time. -/
def cold (steps : Nat) : Float :=
  iterate (fun x => x * 1.0000002 - 0.0000001) steps 3.0

/-- Steps of the first loop in one round. -/
def hotSteps : Nat := 500000

/-- Steps of the second loop in one round. -/
def mediumSteps : Nat := 143000

/-- Steps of the third loop in one round. -/
def coldSteps : Nat := 71500

def run (rounds : Nat) : Float :=
  iterate (fun sum => sum + hot hotSteps + medium mediumSteps + cold coldSteps) rounds 0.0

end StackProfiler.Workload
