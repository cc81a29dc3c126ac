import RelationalSolver.Planning.Pipeline
import RelationalSolver.Proofs.Unification.Adequacy
import RelationalSolver.Stream.Run

/-!
# What is read off a substitution

Constraints, bounds, plans and rows look at a substitution by walking, resolving and
unifying.  Twins give all of them the same answers, whether or not a chain of one is
condensed in the other.
-/

namespace RelationalSolver

namespace Substitution.Twins

variable {s other : Substitution}

section Reading

variable (twins : s.Twins other)
include twins

theorem resolve (t : Term) : other.resolve t = s.resolve t :=
  twins.alike.resolve twins.acyclic twins.acyclicOther t

theorem freeVars (t : Term) : other.freeVars t = s.freeVars t :=
  twins.alike.freeVars twins.acyclic twins.acyclicOther t

/-! ## Constraints and bounds -/

theorem equality_eq : equality .enabled other = equality .enabled s := by
  funext a b
  obtain ⟨result, resultOther, holds, ended, endedOther⟩ := unify_twins twins a b
  rw [equality, equality, ended, endedOther]
  cases holds with
  | none => rfl
  | some both =>
      simp only [bind, Except.bind, both.1.alike.size_eq, twins.alike.size_eq]

theorem pattern (a : Application) : a.pattern other = a.pattern s := by
  unfold Application.pattern
  simp only [twins.resolve]

end Reading

mutual

theorem bound (twins : s.Twins other) (g : Goal) : g.bound other = g.bound s := by
  cases g with
  | equal a b =>
      rw [Goal.bound, Goal.bound]
      rcases twins.alike.unify_unchecked a b with
        ⟨result, resultOther, holds, ended, endedOther⟩ | ⟨endless, endlessOther⟩
      · rw [ended, endedOther]
        cases holds <;> rfl
      · rw [endless, endlessOther]
  | conj goals constraints => rw [Goal.bound, Goal.bound, bounds twins goals]
  | disj goals constraints => rw [Goal.bound, Goal.bound, bounds twins goals]
  | relation a => rw [Goal.bound, Goal.bound, Application.bound, twins.pattern, Application.bound]
  | _ => rfl

theorem bounds (twins : s.Twins other) (goals : List Goal) :
    Goal.bounds other goals = Goal.bounds s goals := by
  match goals with
  | [] => rfl
  | g :: goals => rw [Goal.bounds, Goal.bounds, bound twins g, bounds twins goals]

end

section Deciding

variable (twins : s.Twins other)
include twins

/-- Twins decide every constraint alike. -/
theorem evaluate (c : Constraint) : c.evaluate .enabled other = c.evaluate .enabled s := by
  cases c with
  | inDomain v domain =>
      unfold Constraint.evaluate
      simp only [twins.resolve, twins.equality_eq]
  | cardinality factors =>
      unfold Constraint.evaluate cardinalityBound
      simp only [twins.resolve, twins.bounds]
  | _ =>
      unfold Constraint.evaluate
      simp only [twins.equality_eq]

/-! ## Plans -/

theorem inspect : PlannedGoal.inspect other = PlannedGoal.inspect s := by
  funext g
  have reached : PlannedGoal.reached other = PlannedGoal.reached s := by
    funext vars
    unfold PlannedGoal.reached
    simp only [twins.freeVars]
  unfold PlannedGoal.inspect Goal.bound?
  rw [twins.bound, reached]

theorem domainOf (a : Application) (v : Var) : a.domainOf v other = a.domainOf v s := by
  unfold Application.domainOf Application.columnsOf
  simp only [twins.alike.walk]

theorem commonDomain (v : Var) (domain : Option TermSet) (goals : List PlannedGoal) :
    Planning.commonDomain other v domain goals = Planning.commonDomain s v domain goals := by
  induction goals generalizing domain with
  | nil => rfl
  | cons p goals ih => simp only [Planning.commonDomain, twins.domainOf, ih]

theorem relevance (goals : List PlannedGoal) :
    Planning.relevance other goals = Planning.relevance s goals := by
  unfold Planning.relevance Planning.restrictVar
  simp only [twins.commonDomain]

theorem run (bindings : Nat) (passes : Pipeline) (plan : Plan) :
    Pipeline.run ⟨other, bindings⟩ passes plan = Pipeline.run ⟨s, bindings⟩ passes plan := by
  induction passes generalizing plan with
  | nil => rfl
  | cons pass passes ih =>
      cases plan with
      | failed => rfl
      | feasible goals =>
          have same : pass.apply ⟨other, bindings⟩ goals = pass.apply ⟨s, bindings⟩ goals := by
            cases pass with
            | relevance => rw [Pass.apply, Pass.apply, twins.relevance]
            | _ => rfl
          rw [Pipeline.run, Pipeline.run, same]
          simp only [ih]

/-- Twins make the same plan of a conjunction. -/
theorem plan (bindings : Nat) (passes : Pipeline) (goals : List Goal) :
    Pipeline.plan ⟨other, bindings⟩ passes goals = Pipeline.plan ⟨s, bindings⟩ passes goals := by
  unfold Pipeline.plan Plan.inspect
  simp only [twins.inspect, twins.run]

/-- Twins ask a relation for the same rows. -/
theorem rowsOf (a : Application) : RowScan.rowsOf a other = RowScan.rowsOf a s := by
  unfold RowScan.rowsOf
  rw [twins.pattern]

end Deciding

end Substitution.Twins

end RelationalSolver
