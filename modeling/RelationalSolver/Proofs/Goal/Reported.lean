import RelationalSolver.Goal.Basic
import RelationalSolver.Proofs.Unification.Locality

/-!
# The variables that goals report

A goal reports its variables unless a part of it is suspended.  All terms that it equates or
looks up in tables are over the variables it reports, apart from the wildcard.
-/

namespace RelationalSolver

/-- The relation is a table that was made of rows. -/
def Application.IsTable (a : Application) : Prop :=
  ∃ facts arity rows, a.relation.source = .table facts ∧ FactTable.ofRows arity rows = .ok facts

namespace Goal

mutual

/-- The goal is made of equations, constraints, relations on tables, conjunctions and
disjunctions; nothing of it is suspended. -/
def Immediate : Goal → Prop
  | .succeed | .fail | .equal _ _ | .constrain _ => True
  | .relation a => a.IsTable
  | .conj goals _ => AllImmediate goals
  | .disj goals _ => AllImmediate goals
  | _ => False

/-- All goals of the list are immediate. -/
def AllImmediate : List Goal → Prop
  | [] => True
  | g :: gs => g.Immediate ∧ AllImmediate gs

end

mutual

/-- The goal is immediate, and the terms that it equates and looks up are over a set of
variables. -/
def Within (inside : Set Var) : Goal → Prop
  | .succeed | .fail | .constrain _ => True
  | .equal a b => a.Within inside ∧ b.Within inside
  | .relation a => a.IsTable ∧ ∀ t ∈ a.args, t.Within inside
  | .conj goals _ => AllWithin inside goals
  | .disj goals _ => AllWithin inside goals
  | _ => False

/-- All goals of the list are over the set. -/
def AllWithin (inside : Set Var) : List Goal → Prop
  | [] => True
  | g :: gs => g.Within inside ∧ AllWithin inside gs

end

variable {inside : Set Var} {goals : List Goal} {seen vars : List Var}

theorem allWithin_iff : AllWithin inside goals ↔ ∀ g ∈ goals, g.Within inside := by
  induction goals with
  | nil => simp [AllWithin]
  | cons g goals ih => simp [AllWithin, ih]

theorem subset_addConstraintVars (constraints : List Constraint) :
    seen ⊆ addConstraintVars seen constraints := by
  induction constraints generalizing seen with
  | nil =>
      rw [addConstraintVars]
      exact List.Subset.refl seen
  | cons c constraints ih =>
      rw [addConstraintVars]
      exact fun v member => ih (mem_appendAllNew.mpr (.inl member))

theorem subset_unionVars? (united : unionVars? seen goals = some vars) : seen ⊆ vars := by
  induction goals generalizing seen with
  | nil =>
      rw [unionVars?] at united
      cases united
      exact List.Subset.refl _
  | cons g goals ih =>
      rw [unionVars?] at united
      split at united
      · exact fun v member => ih united (mem_appendAllNew.mpr (.inl member))
      · cases united

/-- The goals of a combination report no more variables than the combination. -/
theorem unionVars?_of_map {constraints : List Constraint}
    (reports : (unionVars? [] goals).map (addConstraintVars · constraints) = some vars) :
    ∃ united, unionVars? [] goals = some united ∧ united ⊆ vars := by
  obtain ⟨united, found, rfl⟩ := Option.map_eq_some_iff.mp reports
  exact ⟨united, found, subset_addConstraintVars constraints⟩

mutual

/-- An immediate goal reports its variables. -/
theorem Immediate.exists_vars? : ∀ {g : Goal}, g.Immediate → ∃ vars, g.vars? = some vars
  | .succeed, _ | .fail, _ | .equal _ _, _ | .constrain _, _ | .relation _, _ => ⟨_, rfl⟩
  | .conj goals constraints, immediate => by
      obtain ⟨united, found⟩ := AllImmediate.exists_unionVars? goals [] immediate
      exact ⟨_, congrArg (Option.map (addConstraintVars · constraints)) found⟩
  | .disj goals constraints, immediate => by
      obtain ⟨united, found⟩ := AllImmediate.exists_unionVars? goals [] immediate
      exact ⟨_, congrArg (Option.map (addConstraintVars · constraints)) found⟩

theorem AllImmediate.exists_unionVars? : ∀ (goals : List Goal) (seen : List Var),
    AllImmediate goals → ∃ united, unionVars? seen goals = some united
  | [], seen, _ => ⟨seen, rfl⟩
  | g :: goals, seen, immediate => by
      obtain ⟨own, reports⟩ := Immediate.exists_vars? immediate.1
      obtain ⟨united, found⟩ :=
        AllImmediate.exists_unionVars? goals (appendAllNew seen own) immediate.2
      exact ⟨united, by rw [unionVars?, reports]; exact found⟩

end

mutual

/-- An immediate goal is over the variables that it reports. -/
theorem within_of_vars? (anonymous : .wildcard ∈ inside) : ∀ (g : Goal) {vars : List Var},
    g.vars? = some vars → (∀ v ∈ vars, v ∈ inside) → g.Immediate → g.Within inside
  | .succeed, _, _, _, _ => trivial
  | .fail, _, _, _, _ => trivial
  | .constrain _, _, _, _, _ => trivial
  | .equal a b, _, reports, known, _ => by
      cases reports
      exact ⟨Term.within_of_varsOf known anonymous (by simp),
        Term.within_of_varsOf known anonymous (by simp)⟩
  | .relation a, _, reports, known, table => by
      cases reports
      exact ⟨table, fun _ => Term.within_of_varsOf known anonymous⟩
  | .conj goals _, _, reports, known, immediate => by
      obtain ⟨united, found, less⟩ := unionVars?_of_map reports
      exact allWithin_of_unionVars? anonymous goals found (fun v member => known v (less member))
        immediate
  | .disj goals _, _, reports, known, immediate => by
      obtain ⟨united, found, less⟩ := unionVars?_of_map reports
      exact allWithin_of_unionVars? anonymous goals found (fun v member => known v (less member))
        immediate
  | .fresh _ _, _, reports, _, _ | .delay _, _, reports, _, _ | .call _ _, _, reports, _, _
  | .abort _, _, reports, _, _ | .yieldThenAbort _, _, reports, _, _ => nomatch reports

theorem allWithin_of_unionVars? (anonymous : .wildcard ∈ inside) : ∀ (goals : List Goal)
    {seen vars : List Var}, unionVars? seen goals = some vars → (∀ v ∈ vars, v ∈ inside) →
      AllImmediate goals → AllWithin inside goals
  | [], _, _, _, _, _ => trivial
  | g :: goals, seen, vars, united, known, immediate => by
      rw [unionVars?] at united
      split at united
      · rename_i own reports
        have kept := subset_unionVars? united
        exact ⟨within_of_vars? anonymous g reports
          (fun v member => known v (kept (mem_appendAllNew.mpr (.inr member)))) immediate.1,
          allWithin_of_unionVars? anonymous goals united known immediate.2⟩
      · cases united

end

end Goal

end RelationalSolver
