import RelationalSolver.Planning.Plan

/-!
# Guarding runs of entangled goals

Adjacent goals that report variables, are sized and share variables form runs.
A run that can have no answer makes the conjunction fail.  In front of a run of
two or more goals stands a constraint that prunes a branch once one of them has
run out of answers.
-/

namespace RelationalSolver.Planning

/-- A run, with its guard in front if it has two or more goals; an empty run is
nothing at all. -/
def closeRun (run : List PlannedGoal) : Except Notice (List PlannedGoal) :=
  if (SizeBound.product (run.filterMap (·.size?))).isZero then
    throw (.zeroCardinality run.length)
  else if 2 ≤ run.length then
    pure (.injected (.constrain (.cardinality (run.map (·.goal)))) :: run)
  else pure run

/-- Go through the goals with the run that is open and the variables it can
reach. -/
def guardRuns (run : List PlannedGoal) (vars : List Var) :
    List PlannedGoal → Except Notice (List PlannedGoal)
  | [] => closeRun run
  | p :: ps =>
      if p.isRanked && (run.isEmpty || p.shares vars) then
        guardRuns (run ++ [p]) (appendAllNew vars p.vars) ps
      else do
        let closed ← closeRun run
        let rest ← if p.isRanked then guardRuns [p] p.vars ps else (p :: ·) <$> guardRuns [] [] ps
        pure (closed ++ rest)

/-- Guard every run of the goals. -/
def cardinality (goals : List PlannedGoal) : Except Notice (List PlannedGoal) :=
  guardRuns [] [] goals

end RelationalSolver.Planning
