import RelationalSolver.Config.Basic

/-!
# Ending runs early

A termination looks at the progress of a run before every move of its stream.
-/

namespace RelationalSolver

/-- Progress of one run. -/
structure SearchScope where
  /-- Nanoseconds since the start of the run. -/
  elapsed : Nat
  /-- Suspensions forced. -/
  steps : Nat
  /-- Solutions yielded. -/
  solutions : Nat
deriving DecidableEq, Inhabited

namespace SearchScope

/-- The beginning of a run. -/
def start : SearchScope := ⟨0, 0, 0⟩

/-- A suspension was forced. -/
def recordStep (scope : SearchScope) : SearchScope := { scope with steps := scope.steps + 1 }

/-- A solution was yielded. -/
def recordSolution (scope : SearchScope) : SearchScope :=
  { scope with solutions := scope.solutions + 1 }

end SearchScope

/-- When to stop. -/
inductive Termination where
  | solutionCount (limit : Nat)
  | stepCount (limit : Nat)
  /-- After so many milliseconds. -/
  | time (millis : Nat)
  /-- As soon as one of them says so. -/
  | any (terminations : List Termination)

namespace Termination

mutual

/-- A run that has come so far is to stop. -/
def reached (scope : SearchScope) : Termination → Bool
  | .solutionCount limit => limit ≤ scope.solutions
  | .stepCount limit => limit ≤ scope.steps
  | .time millis => millis * 1000000 ≤ scope.elapsed
  | .any terminations => anyReached scope terminations

/-- One of the terminations says that the run is to stop. -/
def anyReached (scope : SearchScope) : List Termination → Bool
  | [] => false
  | t :: ts => t.reached scope || anyReached scope ts

end

/-- The terminations of both sides apply, if there are any. -/
def orElse : Option Termination → Option Termination → Option Termination
  | some a, some b => some (.any [a, b])
  | some a, none => some a
  | none, b => b

/-- The termination of configured limits, if there are any. -/
def ofLimits (limits : Limits) : Option Termination :=
  let parts := (limits.solutionLimit.map .solutionCount).toList ++
    (limits.stepLimit.map .stepCount).toList ++ (limits.timeLimit.map .time).toList
  if parts.isEmpty then none else some (.any parts)

/-- The termination of a configuration, if its runs may end early. -/
def ofConfig (config : QueryConfig) : Option Termination := config.termination.bind ofLimits

end Termination

end RelationalSolver
