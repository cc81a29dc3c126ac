import RelationalSolver.Goal.Basic

/-!
# Deciding constraints

A constraint is evaluated against bindings.  Whether two terms are equal is
asked of unification: they are already equal if it makes no binding, can become
equal if it makes some, and never will be if it fails.
-/

namespace RelationalSolver

/-- How a constraint stands under the present bindings. -/
inductive Verdict where
  | satisfied
  | violated
  /-- An equivalent constraint takes its place. -/
  | simplified (next : Constraint)
  | pending

/-- How two terms stand under the present bindings. -/
inductive Equality where
  | never
  | already
  | possible
deriving DecidableEq

/-- What the bindings say about two terms.  The bindings are only tried. -/
def equality (check : OccursCheck) (s : Substitution) (a b : Term) :
    Except Unending Equality := do
  match ← s.unify check a b with
  | none => pure .never
  | some extended => pure (if extended.size = s.size then .already else .possible)

/-- Compare a term with others from left to right: nothing if it equals one
already, else those that it may still come to equal. -/
def stillPossible (test : Term → Except Unending Equality) :
    List Term → Except Unending (Option (List Term))
  | [] => pure (some [])
  | t :: ts => do
      match ← test t with
      | .already => pure none
      | .possible => do
          match ← stillPossible test ts with
          | some rest => pure (some (t :: rest))
          | none => pure none
      | .never => stillPossible test ts

/-- Compare every two items: nothing if two are equal already, else whether
some two may still come to be. -/
def pairsOpen (test : Term → Term → Except Unending Equality) :
    List Term → Except Unending (Option Bool)
  | [] => pure (some false)
  | t :: ts => do
      match ← stillPossible (test t) ts with
      | none => pure none
      | some here => do
          match ← pairsOpen test ts with
          | none => pure none
          | some later => pure (some (!here.isEmpty || later))

/-- The terms that a term can equal. -/
def candidates (test : Term → Except Unending Equality) :
    List Term → Except Unending (List Term)
  | [] => pure []
  | t :: ts => do
      let here ← test t
      let rest ← candidates test ts
      pure (if here = .never then rest else t :: rest)

namespace Exclusion

/-- Members without variables. -/
def values (e : Exclusion) : List Term := e.members.filter (·.isGround)

/-- Members that hold variables. -/
def openMembers (e : Exclusion) : List Term := e.members.filter (!·.isGround)

/-- Exclude more members, each once. -/
def expand (e : Exclusion) (extra : List Term) : Exclusion :=
  { e with members := appendAllNew e.members extra }

/-- No longer exclude a member. -/
def contract (e : Exclusion) (member : Term) : Exclusion :=
  { e with members := e.members.filter (· ≠ member) }

/-- The values of a domain that are not excluded. -/
def remaining (e : Exclusion) (domain : TermSet) : TermSet :=
  domain.filter (· ∉ e.values)

end Exclusion

/-- The product of the bounds of the sized factors. -/
def cardinalityBound (s : Substitution) (factors : List Goal) : Except Unending SizeBound :=
  SizeBound.product <$> Goal.bounds s (factors.filter (·.isSized))

namespace Constraint

/-- Decide the constraint as far as the bindings allow. -/
def evaluate (check : OccursCheck) (s : Substitution) (c : Constraint) :
    Except Unending Verdict :=
  match c with
  | .neq a b => do
      match ← equality check s a b with
      | .never => pure .satisfied
      | .already => pure .violated
      | .possible => pure .pending
  | .distinct items => do
      match ← pairsOpen (equality check s) items with
      | none => pure .violated
      | some true => pure .pending
      | some false => pure .satisfied
  | .notIn e => do
      match ← stillPossible (equality check s e.subject) e.members with
      | none => pure .violated
      | some [] => pure .satisfied
      | some members =>
          if members.length < e.members.length then
            pure (.simplified (.notIn ⟨e.subject, members⟩))
          else pure .pending
  | .inDomain v domain => do
      let value := s.resolve (.var v)
      if value.isGround then
        pure (if domain.contains value then .satisfied else .violated)
      else if value.asVar?.isSome then
        pure (if domain.isEmpty then .violated else .pending)
      else
        let fitting ← candidates (equality check s value) domain.toList
        if fitting.isEmpty then pure .violated
        else if fitting.length < domain.size then
          pure (.simplified (.inDomain v (.ofList fitting)))
        else pure .pending
  | .cardinality factors => do
      if (← cardinalityBound s factors).isZero then pure .violated
      else if (Constraint.cardinality factors).vars.all fun v => (s.resolve (.var v)).isGround then
        pure .satisfied
      else pure .pending

end Constraint

end RelationalSolver
