import RelationalSolver.Substitution.Text

/-!
# Solutions

A solution is what a run reports of one context: the resolved terms of the
projected variables.
-/

namespace RelationalSolver

/-- One answer of a query. -/
structure Solution where
  /-- Position in its run, from zero. -/
  index : Nat
  /-- The projected variables in projection order, with their terms. -/
  bindings : List (Var × Term)
  /-- Bindings that the branch made before reaching the solution. -/
  bindingsMade : Nat
deriving Inhabited

/-- The term of a projected variable. -/
def Solution.get? (s : Solution) (v : Var) : Option Term := s.bindings.lookup v

/-- The bindings between braces. -/
def Solution.text (s : Solution) : String :=
  bracedText (s.bindings.map fun (v, t) => v.text ++ " = " ++ t.text)

end RelationalSolver
