import RelationalSolver.Fault
import RelationalSolver.Relation.Application
import RelationalSolver.Unification

/-!
# Goals and constraints

Goals and constraints are data.  Bodies that are run later, behind a suspension,
stay text until then: `fresh` names the variables that it will introduce, and
`call` names a definition.  Goals and constraints refer to each other, since a
cardinality constraint watches goals.
-/

namespace RelationalSolver

/-- A term that must differ from every member of a list. -/
structure Exclusion where
  subject : Term
  members : List Term
deriving Inhabited

mutual

/-- What may hold in a context. -/
inductive Goal where
  | succeed
  | fail
  | equal (left right : Term)
  | constrain (constraint : Constraint)
  /-- All goals hold; the constraints are attached before any of them runs. -/
  | conj (goals : List Goal) (constraints : List Constraint)
  /-- Some goal holds; the constraints are attached before the branches run. -/
  | disj (goals : List Goal) (constraints : List Constraint)
  /-- The body holds for new variables in the place of the names. -/
  | fresh (names : List String) (body : Goal)
  /-- The body holds; it is not looked at before it is forced. -/
  | delay (body : Goal)
  /-- The body of a definition holds for the arguments. -/
  | call (name : String) (args : List Term)
  | relation (application : Application)
  /-- Ends the search. -/
  | abort (fault : Fault)
  /-- Holds once and then ends the search. -/
  | yieldThenAbort (fault : Fault)

/-- A condition on terms that may not be decided yet. -/
inductive Constraint where
  | neq (left right : Term)
  /-- All items differ from each other. -/
  | distinct (items : List Term)
  | notIn (exclusion : Exclusion)
  /-- The variable takes a value of the set. -/
  | inDomain (v : Var) (domain : TermSet)
  /-- No sized factor has run out of answers. -/
  | cardinality (factors : List Goal)

end

instance : Inhabited Goal := ⟨.succeed⟩
instance : Inhabited Constraint := ⟨.distinct []⟩

/-- A goal to be called by name, and the names of its parameters. -/
structure Definition where
  params : List String
  body : Goal

/-- The definitions that calls refer to. -/
abbrev Definitions := List (String × Definition)

namespace Constraint

/-- Short name used in diagnostics. -/
def name : Constraint → String
  | .neq _ _ => "neq"
  | .distinct _ => "distinct"
  | .notIn _ => "not_in"
  | .inDomain _ _ => "in_domain"
  | .cardinality _ => "cardinality"

end Constraint

namespace Goal

/-- Short name used in diagnostics. -/
def name : Goal → String
  | .succeed => "succeed"
  | .fail => "fail"
  | .equal _ _ => "eq"
  | .constrain c => c.name
  | .conj _ _ => "conj"
  | .disj _ _ => "disj"
  | .fresh _ _ => "fresh"
  | .delay _ => "delay"
  | .call _ _ => "delay"
  | .relation a => a.relation.name
  | .abort _ => "goal"
  | .yieldThenAbort _ => "goal"

/-- The number of answers can be bounded without running the goal. -/
def isSized : Goal → Bool
  | .succeed | .fail | .equal _ _ | .conj _ _ | .disj _ _ | .relation _ => true
  | _ => false

/-- The relation that a goal enumerates, with its arguments. -/
def asApplication? : Goal → Option Application
  | .relation a => some a
  | _ => none

mutual

/-- Nesting of conjunctions and disjunctions outside of suspended bodies. -/
def depth : Goal → Nat
  | .conj goals _ => 1 + depths goals
  | .disj goals _ => 1 + depths goals
  | _ => 0

/-- Nesting of the deepest goal of a list. -/
def depths : List Goal → Nat
  | [] => 0
  | g :: gs => max g.depth (depths gs)

end

mutual

/-- The variables that a goal can bind, without duplicates, if it reports them.
A suspended body does not, and neither does a combination that holds one. -/
def vars? : Goal → Option (List Var)
  | .succeed => some []
  | .fail => some []
  | .equal a b => some (varsOf [a, b])
  | .constrain c => some (constraintVars c)
  | .conj goals constraints => (unionVars? [] goals).map (addConstraintVars · constraints)
  | .disj goals constraints => (unionVars? [] goals).map (addConstraintVars · constraints)
  | .relation a => some (varsOf a.args)
  | _ => none

/-- Add the variables of the goals to those already seen. -/
def unionVars? (seen : List Var) : List Goal → Option (List Var)
  | [] => some seen
  | g :: gs =>
      match g.vars? with
      | some vars => unionVars? (appendAllNew seen vars) gs
      | none => none

/-- Add the variables of the constraints to those already seen. -/
def addConstraintVars (seen : List Var) : List Constraint → List Var
  | [] => seen
  | c :: cs => addConstraintVars (appendAllNew seen (constraintVars c)) cs

/-- The variables that a constraint is about, without duplicates. -/
def constraintVars : Constraint → List Var
  | .neq a b => varsOf [a, b]
  | .distinct items => varsOf items
  | .notIn e => varsOf (e.subject :: e.members)
  | .inDomain v _ => [v]
  | .cardinality factors => factorVars [] factors

/-- Add the variables of the sized factors to those already seen. -/
def factorVars (seen : List Var) : List Goal → List Var
  | [] => seen
  | g :: gs =>
      if g.isSized then factorVars (appendAllNew seen (g.vars?.getD [])) gs
      else factorVars seen gs

end

mutual

/-- A bound on the number of answers under the bindings.  Goals that are not
sized are unbounded. -/
def bound (s : Substitution) : Goal → Except Unending SizeBound
  | .succeed => pure (.exact 1)
  | .fail => pure (.exact 0)
  | .equal a b => do
      match ← s.unify .disabled a b with
      | some _ => pure (.atMost 1)
      | none => pure (.exact 0)
  | .conj goals _ => SizeBound.product <$> bounds s goals
  | .disj goals _ => SizeBound.sum <$> bounds s goals
  | .relation a => pure (a.bound s)
  | _ => pure .unbounded

/-- The bounds of several goals. -/
def bounds (s : Substitution) : List Goal → Except Unending (List SizeBound)
  | [] => pure []
  | g :: gs => do
      let first ← bound s g
      let rest ← bounds s gs
      pure (first :: rest)

end

/-- The bound of a goal, if it is sized. -/
def bound? (s : Substitution) (g : Goal) : Except Unending (Option SizeBound) :=
  if g.isSized then some <$> g.bound s else pure none

end Goal

/-- The variables that a constraint is about, without duplicates. -/
def Constraint.vars (c : Constraint) : List Var := Goal.constraintVars c

end RelationalSolver
