import RelationalSolver.Substitution.Basic

/-!
# Deep walks through a substitution

Resolving puts bindings in the place of variables at every depth.  A variable
met again while its own binding is being expanded, which happens only for cyclic
terms, is left as it is.  The occurrence test follows bindings too; on a cyclic
term it may have no end, and then says so.
-/

namespace RelationalSolver

/-- The computation has no end: the rounds allowed for its input, which are
enough for every computation that ends, were used up. -/
inductive Unending where
  | unending
deriving DecidableEq, Inhabited

namespace Substitution

/-- Expand a variable, inside the expansion of the variables in `expanding`.
Every nested expansion is of another bound variable. -/
def expand (s : Substitution) : Nat → List Var → Var → Term
  | budget, expanding, v =>
      if v ∈ expanding then .var v
      else
        match s.lookup v, budget with
        | some t, budget + 1 => t.mapVars (expand s budget (v :: expanding))
        | _, _ => .var v

/-- Put bindings in the place of bound variables at every depth. -/
def resolve (s : Substitution) (t : Term) : Term := t.mapVars (s.expand s.size [])

/-- The unbound variables that a term reaches. -/
def freeVars (s : Substitution) (t : Term) : List Var := (s.resolve t).vars

/-- Number of nodes of all bound terms. -/
def nodes (s : Substitution) : Nat := s.bindings.foldl (fun total _ t => total + t.size) 0

/-- Some term of a list passes a test that may have no end; the terms after the
first that passes are not looked at. -/
def anyWithin (test : Term → Except Unending Bool) : List Term → Except Unending Bool
  | [] => pure false
  | t :: ts => do if ← test t then pure true else anyWithin test ts

/-- The occurrence test, down to a given depth.  What lies deeper is left to another
test. -/
def occursBy (deeper : Term → Except Unending Bool) (s : Substitution) (v : Var) :
    Nat → Term → Except Unending Bool
  | 0, t => deeper t
  | depth + 1, t =>
      match s.walk t with
      | .var w => pure (w = v)
      | .atom _ => pure false
      | .compound _ args => anyWithin (occursBy deeper s v depth) args

/-- The occurrence test, which has no end if it goes deeper than allowed. -/
def occursWithin (s : Substitution) (v : Var) (depth : Nat) (t : Term) : Except Unending Bool :=
  occursBy (fun _ => throw .unending) s v depth t

/-- A depth that is allowed whatever the nodes: only below it are they counted, so
that small steps through large terms stay small. -/
def shallow : Nat := 10000

/-- The variable occurs in the term once bindings are followed.  A path longer
than there are nodes comes back to a node it has passed. -/
def occurs (s : Substitution) (v : Var) (t : Term) : Except Unending Bool :=
  occursBy (fun u => s.occursWithin v (s.nodes + t.size + 1) u) s v shallow t

theorem occursBy_occursWithin (s : Substitution) (v : Var) (depth more : Nat) :
    occursBy (s.occursWithin v more) s v depth = s.occursWithin v (more + depth) := by
  induction depth with
  | zero => rfl
  | succ depth ih =>
      funext t
      rw [occursBy, ih]
      rfl

theorem occurs_eq (s : Substitution) (v : Var) (t : Term) :
    s.occurs v t = s.occursWithin v (s.nodes + t.size + 1 + shallow) t :=
  congrFun (occursBy_occursWithin s v shallow _) t

end Substitution

end RelationalSolver
