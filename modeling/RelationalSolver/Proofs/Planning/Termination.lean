import RelationalSolver.Proofs.Planning.Answers
import RelationalSolver.Proofs.Planning.Provenance
import RelationalSolver.Proofs.Unification.Tangles

/-!
# Planning ends

A bound is found by unifying the equations of a goal without the occurrence test, whatever the
test is for the search itself.  So a bound is found exactly if unification without the test ends
on each equation.  It does on equations that are not tangled, and then planning ends as well,
with any passes.  On a tangled equation it may not, even where the search itself would end.
-/

namespace RelationalSolver

open Substitution Engine

variable {s : Substitution}

namespace Goal

mutual

/-- The equations of a goal outside of suspended bodies. -/
def equations : Goal → List (Term × Term)
  | .equal a b => [(a, b)]
  | .conj goals _ => equationsOf goals
  | .disj goals _ => equationsOf goals
  | _ => []

/-- The equations of several goals. -/
def equationsOf : List Goal → List (Term × Term)
  | [] => []
  | g :: gs => g.equations ++ equationsOf gs

end

mutual

/-- A bound is found if unification without the occurrence test ends on each equation. -/
theorem exists_bound : ∀ g : Goal,
    (∀ e ∈ g.equations, ∃ result, s.unify .disabled e.1 e.2 = .ok result) →
      ∃ bound, g.bound s = .ok bound
  | .equal a b, ends => by
      obtain ⟨result, ended⟩ := ends (a, b) (by simp [equations])
      rw [bound, ended]
      cases result with
      | none => exact ⟨_, rfl⟩
      | some next => exact ⟨_, rfl⟩
  | .conj goals _, ends => by
      obtain ⟨list, found⟩ := exists_bounds goals ends
      rw [bound, found]
      exact ⟨_, rfl⟩
  | .disj goals _, ends => by
      obtain ⟨list, found⟩ := exists_bounds goals ends
      rw [bound, found]
      exact ⟨_, rfl⟩
  | .succeed, _ | .fail, _ | .relation _, _ | .constrain _, _ | .fresh _ _, _ | .delay _, _
  | .call _ _, _ | .abort _, _ | .yieldThenAbort _, _ => ⟨_, rfl⟩

theorem exists_bounds : ∀ goals : List Goal,
    (∀ e ∈ equationsOf goals, ∃ result, s.unify .disabled e.1 e.2 = .ok result) →
      ∃ list, bounds s goals = .ok list
  | [], _ => ⟨[], rfl⟩
  | g :: gs, ends => by
      obtain ⟨first, found⟩ := exists_bound g fun e member =>
        ends e (List.mem_append_left _ member)
      obtain ⟨rest, foundRest⟩ := exists_bounds gs fun e member =>
        ends e (List.mem_append_right _ member)
      rw [bounds, found, foundRest]
      exact ⟨_, rfl⟩

end

mutual

/-- Where a bound is found, unification without the occurrence test ended on each equation. -/
theorem ends_of_bound : ∀ (g : Goal) (b : SizeBound), g.bound s = .ok b →
    ∀ e ∈ g.equations, ∃ result, s.unify .disabled e.1 e.2 = .ok result
  | .equal x y, _, found, e, member => by
      obtain rfl : e = (x, y) := by simpa [equations] using member
      rw [bound, except_bind_eq_ok] at found
      obtain ⟨result, ended, _⟩ := found
      exact ⟨result, ended⟩
  | .conj goals _, _, found, e, member => by
      rw [bound, map_eq_pure_bind, except_bind_eq_ok] at found
      obtain ⟨list, each, _⟩ := found
      exact ends_of_bounds goals list each e member
  | .disj goals _, _, found, e, member => by
      rw [bound, map_eq_pure_bind, except_bind_eq_ok] at found
      obtain ⟨list, each, _⟩ := found
      exact ends_of_bounds goals list each e member
  | .succeed, _, _, _, member | .fail, _, _, _, member | .relation _, _, _, _, member
  | .constrain _, _, _, _, member | .fresh _ _, _, _, _, member | .delay _, _, _, _, member
  | .call _ _, _, _, _, member | .abort _, _, _, _, member
  | .yieldThenAbort _, _, _, _, member => absurd member List.not_mem_nil

theorem ends_of_bounds : ∀ (goals : List Goal) (list : List SizeBound), bounds s goals = .ok list →
    ∀ e ∈ equationsOf goals, ∃ result, s.unify .disabled e.1 e.2 = .ok result
  | [], _, _, _, member => absurd member List.not_mem_nil
  | g :: gs, _, found, e, member => by
      rw [bounds, except_bind_eq_ok] at found
      obtain ⟨first, here, found⟩ := found
      rw [except_bind_eq_ok] at found
      obtain ⟨rest, there, _⟩ := found
      rw [equationsOf] at member
      rcases List.mem_append.mp member with member | member
      · exact ends_of_bound g first here e member
      · exact ends_of_bounds gs rest there e member

end

/-- A bound is found exactly if unification without the occurrence test, which may go as deep
as it takes, ends on each equation. -/
theorem exists_bound_iff (ends : s.WalksEnd) (g : Goal) :
    (∃ bound, g.bound s = .ok bound) ↔
      ∀ e ∈ g.equations, ∃ depth result, unifyWithin .disabled depth s e.1 e.2 = .ok result := by
  constructor
  · rintro ⟨bound, found⟩ e member
    obtain ⟨result, ended⟩ := ends_of_bound g bound found e member
    rw [unify_eq] at ended
    exact ⟨_, result, ended⟩
  · intro within
    apply exists_bound
    intro e member
    obtain ⟨depth, result, ended⟩ := within e member
    exact ⟨result, unify_adequate ends ended⟩

/-- No equation of the goal ties a variable to a term that holds it. -/
def Untangled (s : Substitution) (g : Goal) : Prop := ∀ e ∈ g.equations, ¬ s.Tangled [e]

theorem Untangled.exists_bound {g : Goal} (untangled : g.Untangled s) (acyclic : s.Acyclic) :
    ∃ bound, g.bound s = .ok bound := by
  apply Goal.exists_bound
  intro e member
  obtain ⟨result, ended, _⟩ := unify_ends acyclic e.1 e.2
  exact ⟨result, (unify_of_untangled acyclic (untangled e member)).trans ended⟩

end Goal

/-! ## Plans -/

/-- A plan is made if every goal has a bound. -/
theorem Plan.exists_inspect {goals : List Goal} (bounded : ∀ g ∈ goals, ∃ b, g.bound s = .ok b) :
    ∃ plan, Plan.inspect s goals = .ok plan := by
  refine Plan.exists_inspect_iff.mpr fun g member => ?_
  obtain ⟨b, found⟩ := bounded g member
  rw [Goal.bound?]
  split
  · rw [found]
    exact ⟨_, rfl⟩
  · exact ⟨_, rfl⟩

theorem always_notices (notices : List Notice) : Always (notices.forM Engine.notify) () := by
  induction notices with
  | nil => exact always_pure ()
  | cons notice notices ih => exact (always_modify _).bind ih

/-- Planning ends if every goal has a bound, whatever the passes. -/
theorem Goal.exists_planned {ctx : Context} {goals : List Goal}
    (bounded : ∀ g ∈ goals, ∃ b, g.bound ctx.substitution = .ok b) :
    ∃ planned, Always (Goal.planned ctx goals) planned := by
  obtain ⟨plan, inspected⟩ := Plan.exists_inspect bounded
  change Plan.inspect ctx.planningState.substitution goals = .ok plan at inspected
  rw [Goal.planned]
  dsimp only
  split
  · exact ⟨goals, always_pure goals⟩
  · rw [Pipeline.plan, inspected]
    exact ⟨_, (always_pure _).bind ((always_notices _).bind (always_pure _))⟩

/-- In a context with acyclic bindings, a bound is found for every goal whose equations are not
tangled, and planning such goals ends, whatever passes the context has.  In general a bound is
found exactly if unification without the occurrence test ends on each equation of the goal. -/
theorem Goal.planning_ends {ctx : Context} (acyclic : ctx.substitution.Acyclic) {goals : List Goal}
    (untangled : ∀ g ∈ goals, g.Untangled ctx.substitution) :
    (∀ g ∈ goals, ∃ bound, g.bound ctx.substitution = .ok bound) ∧
      (∃ planned, Always (Goal.planned ctx goals) planned) ∧
      ∀ g : Goal, (∃ bound, g.bound ctx.substitution = .ok bound) ↔
        ∀ e ∈ g.equations, ∃ depth result,
          unifyWithin .disabled depth ctx.substitution e.1 e.2 = .ok result := by
  have bounded : ∀ g ∈ goals, ∃ bound, g.bound ctx.substitution = .ok bound :=
    fun g member => (untangled g member).exists_bound acyclic
  exact ⟨bounded, exists_planned bounded, exists_bound_iff acyclic.walksEnd⟩

/-- The checked context with a planner. -/
def Context.planning : Context := Context.checked.put .planner [.cardinality]

/-- A variable that meets a compound without it is not tangled. -/
theorem Goal.planning_ends_apart :
    let goals : List Goal :=
      [.equal (.var (.numbered 1)) (.tuple [.var (.numbered 2)]), .disj [.succeed, .fail] []]
    Context.planning.substitution.Acyclic ∧
      (∀ g ∈ goals, g.Untangled Context.planning.substitution) ∧
      ∃ planned, Always (Goal.planned Context.planning goals) planned := by
  intro goals
  have acyclic : Context.planning.substitution.Acyclic := acyclic_empty
  have apart : ¬ empty.Tangled [(.var (.numbered 1), .tuple [.var (.numbered 2)])] := by
    intro tangled
    cases tangled with
    | knot meets holds _ =>
        obtain ⟨_, _, ⟨atVar, same⟩ | ⟨atVar, _⟩⟩ := meets
        · cases atVar
          cases same
          exact absurd holds (by decide)
        · cases atVar
    | inside left _ _ _ _ => cases left
    | later _ tangled => exact not_tangled_nil tangled
  have untangled : ∀ g ∈ goals, g.Untangled Context.planning.substitution :=
    List.forall_mem_cons.mpr ⟨List.forall_mem_singleton.mpr apart,
      List.forall_mem_singleton.mpr nofun⟩
  exact ⟨acyclic, untangled, (planning_ends acyclic untangled).2.1⟩

/-- Each of two variables equals a tuple around the other, and then they equal each other. -/
def Goal.crossing : Goal :=
  .equal (.tuple [.var (.numbered 1), .var (.numbered 2), .var (.numbered 1)])
    (.tuple [.tuple [.var (.numbered 2)], .tuple [.var (.numbered 1)], .var (.numbered 2)])

/-- With the occurrence test the search ends without an answer, but finding a bound has no end
at any depth, and so has planning. -/
theorem Goal.planning_unending :
    Context.planning.occursCheck = .enabled ∧ Context.planning.substitution.Acyclic ∧
      (∀ e ∈ Goal.crossing.equations, ∀ depth,
        unifyWithin .disabled depth Context.planning.substitution e.1 e.2 = .error .unending) ∧
      (∀ bound, Goal.crossing.bound Context.planning.substitution ≠ .ok bound) ∧
      (∀ before, ((Goal.planned Context.planning [.crossing, .succeed]).run.run before).1 =
        .error .unending) ∧
      ∃ moves after, Runs ((Goal.conj [.crossing, .succeed] []).search ⟨[], 1⟩ 2 .checked)
        (.start 0 0) moves after ∧ Exhausted moves ∧ (handedOut moves).card = 0 := by
  have stuck : ∀ e ∈ Goal.crossing.equations, ∀ depth,
      unifyWithin .disabled depth Context.planning.substitution e.1 e.2 = .error .unending :=
    List.forall_mem_singleton.mpr fun depth =>
      unifyWithin_crossing rfl rfl (by decide) (by decide) (by decide) _ _ depth
  have acyclic : Context.planning.substitution.Acyclic := acyclic_empty
  have unbounded : ∀ bound, Goal.crossing.bound Context.planning.substitution ≠ .ok bound := by
    intro bound found
    obtain ⟨depth, result, ended⟩ :=
      (exists_bound_iff acyclic.walksEnd _).mp ⟨bound, found⟩ _ List.mem_cons_self
    rw [stuck _ List.mem_cons_self] at ended
    cases ended
  refine ⟨rfl, acyclic, stuck, unbounded, ?_, ?_⟩
  · intro before
    have failed : Goal.crossing.bound Context.planning.planningState.substitution =
        .error .unending := by
      cases found : Goal.crossing.bound Context.planning.planningState.substitution with
      | ok bound => exact absurd found (unbounded bound)
      | error e => rfl
    have sized : Goal.crossing.isSized = true := rfl
    have plan : Pipeline.plan Context.planning.planningState [.cardinality] [.crossing, .succeed] =
        .error .unending := by
      rw [Pipeline.plan, Plan.inspect, List.mapM_cons, PlannedGoal.inspect, Goal.bound?,
        if_pos sized, failed]
      rfl
    change ((Engine.ofBounded (Pipeline.plan Context.planning.planningState [.cardinality]
      [.crossing, .succeed]) >>= _).run.run before).1 = _
    rw [plan]
    rfl
  · have ends : endsAfter ((Goal.conj [.crossing, .succeed] []).search ⟨[], 1⟩ 2 .checked)
        (.start 0 0) 0 = true := by decide +kernel
    exact exists_exhausted ends

end RelationalSolver
