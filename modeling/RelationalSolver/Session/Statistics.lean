import RelationalSolver.Rounding

/-!
# Statistics of a run

Times are whole nanoseconds.  Rates are floats; a time computed from a rate is
the nearest whole number of nanoseconds, and a tie goes to the even one.
-/

namespace RelationalSolver

/-- How one run of a query went. -/
structure Statistics where
  /-- Nanoseconds from the start of the run to its end. -/
  duration : Nat
  /-- Suspensions forced. -/
  steps : Nat
  /-- Solutions yielded. -/
  solutions : Nat
  /-- A termination ended the run. -/
  terminatedEarly : Bool
deriving Inhabited

namespace Statistics

/-- The statistics before any run. -/
def zero : Statistics := ⟨0, 0, 0, false⟩

/-- Nanoseconds in a second. -/
def nanosPerSecond : Nat := 1000000000

/-- A time in seconds: whole seconds and the rest are converted separately. -/
def seconds (nanos : Nat) : Float :=
  (nanos / nanosPerSecond).toUInt64.toFloat +
    (nanos % nanosPerSecond).toUInt64.toFloat / nanosPerSecond.toUInt64.toFloat

/-- The time of a number of seconds. -/
def nanosOfSeconds (x : Float) : Nat :=
  let (numerator, denominator) := Rounding.fraction x
  Rounding.quotient (numerator * nanosPerSecond) denominator

/-- Average time of one forced step.  Counts that fit into 32 bits divide the
time exactly, larger ones through floats. -/
def timePerStep (s : Statistics) : Nat :=
  if s.steps = 0 then 0
  else if s.steps < 0x100000000 then s.duration / s.steps
  else nanosOfSeconds (seconds s.duration / s.steps.toUInt64.toFloat)

/-- Solutions per second; zero if no time has passed. -/
def solutionsPerSecond (s : Statistics) : Float :=
  let elapsed := seconds s.duration
  if elapsed > 0 then s.solutions.toUInt64.toFloat / elapsed else 0

/-- Steps per solution; all steps if there was no solution. -/
def stepsPerSolution (s : Statistics) : Float :=
  if s.solutions = 0 then s.steps.toUInt64.toFloat
  else s.steps.toUInt64.toFloat / s.solutions.toUInt64.toFloat

end Statistics

end RelationalSolver
