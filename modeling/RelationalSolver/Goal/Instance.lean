import RelationalSolver.Goal.Basic

/-!
# Filling in the text of goals

The body of a definition is used with terms in the place of its parameters, and
the body of `fresh` with new variables in the place of its names.  A name bound
again further inside hides the outer one.
-/

namespace RelationalSolver

/-- What names stand for; the first entry of a name counts. -/
abbrev Scope := List (String × Term)

namespace Scope

/-- Names and what they stand for.  Of a name listed twice the last entry counts. -/
def ofLists (names : List String) (terms : List Term) : Scope := (names.zip terms).reverse

/-- The scope inside a binder of the names. -/
def hide (scope : Scope) (names : List String) : Scope :=
  scope.filter fun (name, _) => name ∉ names

/-- What a variable stands for: itself, unless it is a name of the scope. -/
def image (scope : Scope) (v : Var) : Term :=
  match v with
  | .named name => (scope.lookup name).getD (.var v)
  | _ => .var v

/-- Put what the names stand for in their place.  A term without names, such as one
that was put in already, is not built anew. -/
def fill (scope : Scope) (t : Term) : Term :=
  if t.holdsNames then t.mapVars scope.image else t

@[simp] theorem fill_eq (scope : Scope) (t : Term) : scope.fill t = t.mapVars scope.image := by
  unfold fill
  split
  · rfl
  · rename_i nameless
    refine (Term.mapVars_of_not_holdsNames ?_ (Bool.eq_false_iff.mpr nameless)).symm
    intro v h
    cases v with
    | named name => simp [Term.holdsNames] at h
    | wildcard => rfl
    | numbered ordinal => rfl

/-- The variable that a variable stands for; a name that stands for another kind
of term is kept. -/
def imageVar (scope : Scope) (v : Var) : Var := ((scope.image v).asVar?).getD v

end Scope

namespace Goal

mutual

/-- Put what the names stand for in their place. -/
def fill (scope : Scope) : Goal → Goal
  | .succeed => .succeed
  | .fail => .fail
  | .equal a b => .equal (scope.fill a) (scope.fill b)
  | .constrain c => .constrain (fillConstraint scope c)
  | .conj goals constraints => .conj (fillAll scope goals) (fillConstraints scope constraints)
  | .disj goals constraints => .disj (fillAll scope goals) (fillConstraints scope constraints)
  | .fresh names body => .fresh names (body.fill (scope.hide names))
  | .delay body => .delay (body.fill scope)
  | .call name args => .call name (args.map scope.fill)
  | .relation a => .relation { a with args := a.args.map scope.fill }
  | .abort fault => .abort fault
  | .yieldThenAbort fault => .yieldThenAbort fault

/-- Fill in several goals. -/
def fillAll (scope : Scope) : List Goal → List Goal
  | [] => []
  | g :: gs => g.fill scope :: fillAll scope gs

/-- Fill in a constraint. -/
def fillConstraint (scope : Scope) : Constraint → Constraint
  | .neq a b => .neq (scope.fill a) (scope.fill b)
  | .distinct items => .distinct (items.map scope.fill)
  | .notIn e => .notIn ⟨scope.fill e.subject, e.members.map scope.fill⟩
  | .inDomain v domain => .inDomain (scope.imageVar v) (domain.map scope.fill)
  | .cardinality factors => .cardinality (fillAll scope factors)

/-- Fill in several constraints. -/
def fillConstraints (scope : Scope) : List Constraint → List Constraint
  | [] => []
  | c :: cs => fillConstraint scope c :: fillConstraints scope cs

end

mutual

/-- Every relation outside of suspended bodies has the right number of
arguments.  The first one that has not, from left to right, is the error. -/
def check : Goal → Except ArityMismatch Unit
  | .conj goals constraints => do checkAll goals; checkConstraints constraints
  | .disj goals constraints => do checkAll goals; checkConstraints constraints
  | .constrain c => checkConstraint c
  | .relation a => a.check
  | _ => pure ()

/-- Check several goals. -/
def checkAll : List Goal → Except ArityMismatch Unit
  | [] => pure ()
  | g :: gs => do g.check; checkAll gs

/-- Check the factors of a cardinality constraint. -/
def checkConstraint : Constraint → Except ArityMismatch Unit
  | .cardinality factors => checkAll factors
  | _ => pure ()

/-- Check several constraints. -/
def checkConstraints : List Constraint → Except ArityMismatch Unit
  | [] => pure ()
  | c :: cs => do checkConstraint c; checkConstraints cs

end

end Goal

/-- The body of a definition with arguments in the place of its parameters.
Nothing else is in scope. -/
def Definition.apply (definition : Definition) (args : List Term) : Goal :=
  definition.body.fill (.ofLists definition.params args)

end RelationalSolver
