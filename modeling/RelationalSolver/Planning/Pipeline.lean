import RelationalSolver.Planning.Cardinality
import RelationalSolver.Planning.Chain
import RelationalSolver.Planning.Randomize
import RelationalSolver.Planning.Relevance

/-!
# Pipelines of planning passes

The goals of a conjunction go through the passes in order, until one finds that
the conjunction cannot hold.
-/

namespace RelationalSolver

/-- One step of planning. -/
inductive Pass where
  | chainSharedVars
  | relevance
  | cardinality
  | randomizeOrder (seed : UInt64)
  /-- Put the goals into the opposite order. -/
  | reverse
  /-- Let no conjunction hold. -/
  | refuse
deriving DecidableEq, Inhabited

/-- The bindings that planning looks at, and how many the branch has made. -/
structure PlanningState where
  substitution : Substitution
  bindings : Nat

namespace Pass

/-- Short name used in diagnostics. -/
def name : Pass → String
  | .chainSharedVars => "chain_shared_vars"
  | .relevance => "relevance"
  | .cardinality => "cardinality"
  | .randomizeOrder _ => "randomize_order"
  | .reverse => "reverse"
  | .refuse => "refuse"

/-- A plan, and a notice of why it failed if a pass gives one. -/
def outcome : Except Notice (List PlannedGoal) → Plan × Option Notice
  | .ok goals => (.feasible goals, none)
  | .error notice => (.failed, some notice)

/-- Rearrange the goals of a plan. -/
def apply (state : PlanningState) (goals : List PlannedGoal) : Pass → Plan × Option Notice
  | .chainSharedVars => (.feasible (Planning.chainSharedVars goals), none)
  | .relevance => outcome (Planning.relevance state.substitution goals)
  | .cardinality => outcome (Planning.cardinality goals)
  | .randomizeOrder seed => (.feasible (Planning.randomizeOrder seed state.bindings goals), none)
  | .reverse => (.feasible goals.reverse, none)
  | .refuse => (.failed, none)

end Pass

/-- An ordered list of passes. -/
abbrev Pipeline := List Pass

namespace Pipeline

/-- Chaining, relevance, cardinality and random row orders. -/
def standard (seed : UInt64) : Pipeline :=
  [.chainSharedVars, .relevance, .cardinality, .randomizeOrder seed]

/-- Every plan on the way, from the inspected one on, and the notices given.
Nothing is done to a failed plan. -/
def stages (state : PlanningState) : Pipeline → Plan → List Plan × List Notice
  | pass :: passes, .feasible goals =>
      let (next, notice) := pass.apply state goals
      let (later, notices) := stages state passes next
      (.feasible goals :: later, notice.toList ++ notices)
  | _, plan => ([plan], [])

/-- The plan that the passes make of an inspected one, and the notices given. -/
def run (state : PlanningState) : Pipeline → Plan → Plan × List Notice
  | pass :: passes, .feasible goals =>
      let (next, notice) := pass.apply state goals
      let (final, notices) := run state passes next
      (final, notice.toList ++ notices)
  | _, plan => (plan, [])

/-- Plan the goals of a conjunction: the goals to run, and the notices given. -/
def plan (state : PlanningState) (pipeline : Pipeline) (goals : List Goal) :
    Except Unending (List Goal × List Notice) := do
  let (final, notices) := pipeline.run state (← Plan.inspect state.substitution goals)
  pure (final.toGoals,
    notices ++ [.planned goals.length final.toList.length final.isFailed])

end Pipeline

end RelationalSolver
