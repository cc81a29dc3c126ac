import RelationalSolver.Goal.Basic
import RelationalSolver.Session.Notice

/-!
# Plans of conjunctions

Before a conjunction runs, its goals are inspected once: their free variables
and their bounds under the present bindings.  Passes rearrange what was found
out, or find that the conjunction cannot hold.
-/

namespace RelationalSolver

/-- A goal of a conjunction together with what is known about it. -/
structure PlannedGoal where
  goal : Goal
  /-- The unbound variables that the goal can reach, if it reports variables. -/
  vars? : Option (List Var)
  /-- The bound on its answers, if it is sized. -/
  size? : Option SizeBound
deriving Inhabited

namespace PlannedGoal

/-- The unbound variables that some variables reach, without duplicates. -/
def reached (s : Substitution) (vars : List Var) : List Var :=
  vars.foldl (fun seen v => appendAllNew seen (s.freeVars (.var v))) []

/-- Find out about a goal under the bindings. -/
def inspect (s : Substitution) (g : Goal) : Except Unending PlannedGoal := do
  let size? ← g.bound? s
  pure ⟨g, g.vars?.map (reached s), size?⟩

/-- An auxiliary goal, of which only the variables are recorded. -/
def injected (g : Goal) : PlannedGoal := ⟨g, g.vars?, none⟩

/-- The same facts about another goal. -/
def replaced (p : PlannedGoal) (g : Goal) : PlannedGoal := { p with goal := g }

/-- The variables, none if they are not reported. -/
def vars (p : PlannedGoal) : List Var := p.vars?.getD []

/-- The goal reports its variables and is sized. -/
def isRanked (p : PlannedGoal) : Bool := p.vars?.isSome && p.size?.isSome

/-- The goal can reach one of the variables. -/
def shares (p : PlannedGoal) (vars : List Var) : Bool := p.vars.any (· ∈ vars)

/-- The bound as a float, infinite if the goal is not sized. -/
def sizeFloat (p : PlannedGoal) : Float := (p.size?.getD .unbounded).toFloat

end PlannedGoal

/-- What has become of a conjunction so far. -/
inductive Plan where
  | feasible (goals : List PlannedGoal)
  /-- The conjunction cannot hold. -/
  | failed
deriving Inhabited

namespace Plan

/-- Inspect every goal once. -/
def inspect (s : Substitution) (goals : List Goal) : Except Unending Plan :=
  .feasible <$> goals.mapM (PlannedGoal.inspect s)

/-- The goals of a plan; a failed plan has none. -/
def toList : Plan → List PlannedGoal
  | .feasible goals => goals
  | .failed => []

/-- The conjunction cannot hold. -/
def isFailed : Plan → Bool
  | .feasible _ => false
  | .failed => true

/-- The goals to run, in order.  A failed plan runs a goal that fails. -/
def toGoals : Plan → List Goal
  | .feasible goals => goals.map (·.goal)
  | .failed => [.fail]

end Plan

/-- A float before or equal to another.  What is not a number comes first. -/
def rankLE (a b : Float) : Bool := a.isNaN || (!b.isNaN && a ≤ b)

end RelationalSolver
