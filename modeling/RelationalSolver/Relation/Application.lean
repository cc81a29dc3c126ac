import RelationalSolver.Relation.Source
import RelationalSolver.Substitution.Resolve

/-!
# Relations applied to arguments

The arguments that are ground under a substitution narrow the rows asked for;
the others are unified row by row when the goal runs.
-/

namespace RelationalSolver

/-- In which order the rows are visited. -/
inductive RowOrder where
  | natural
  | shuffled (seed : UInt64)
deriving DecidableEq, Inhabited

/-- A relation with one argument for every column. -/
structure Application where
  relation : Relation
  args : List Term
  order : RowOrder

/-- A relation was applied to the wrong number of arguments. -/
structure ArityMismatch where
  relation : String
  expected : Nat
  found : Nat
deriving DecidableEq

/-- States both numbers. -/
def ArityMismatch.message (e : ArityMismatch) : String :=
  s!"Relation `{e.relation}` has arity {e.expected} but was given {e.found} arguments"

namespace Application

/-- There is one argument for every column. -/
def check (a : Application) : Except ArityMismatch Unit :=
  if a.args.length = a.relation.arity then pure ()
  else throw ⟨a.relation.name, a.relation.arity, a.args.length⟩

/-- The arguments that are ground under the bindings. -/
def pattern (a : Application) (s : Substitution) : Pattern :=
  a.args.map fun arg =>
    let value := s.resolve arg
    if value.isGround then some value else none

/-- A bound on the number of rows under the bindings. -/
def bound (a : Application) (s : Substitution) : SizeBound :=
  a.relation.source.bound (a.pattern s)

/-- The columns whose argument walks to the variable. -/
def columnsOf (a : Application) (v : Var) (s : Substitution) : List Nat :=
  (a.args.zipIdx.filter fun (arg, _) => s.walk arg = .var v).map (·.2)

/-- The values that an unbound variable can take, if the source can tell: those
that stand in every column the variable is an argument of. -/
def domainOf (a : Application) (v : Var) (s : Substitution) : Option TermSet :=
  match (a.columnsOf v s).mapM a.relation.source.columnValues with
  | some (values :: others) => some (others.foldl .inter values)
  | _ => none

/-- The same rows in another order. -/
def withOrder (a : Application) (order : RowOrder) : Application := { a with order }

end Application

end RelationalSolver
