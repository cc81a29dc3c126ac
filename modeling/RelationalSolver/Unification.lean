import RelationalSolver.Substitution.Resolve

/-!
# Structural unification

The algorithm is written once, against an interface for bindings.  A bare
substitution implements it for unification of terms alone; contexts implement
it so that every binding also wakes constraints and runs bind hooks.

One round of the algorithm compares the top levels of two terms and leaves the
arguments of compounds to a function for the next rounds.
-/

namespace RelationalSolver

/-- Whether a variable may be bound to a term that contains it. -/
inductive OccursCheck where
  | disabled
  | enabled
deriving DecidableEq, Inhabited

/-- What unification asks of a store of bindings. -/
structure Bindings (m : Type → Type) (σ : Type) where
  /-- Resolve the top level of a term. -/
  walk : σ → Term → Term
  /-- A compound may not be bound to the variable. -/
  forbids : σ → Var → Term → m Bool
  /-- Record a binding of an unbound variable; nothing if it is rejected. -/
  bind : σ → Var → Term → m (Option σ)

namespace Bindings

variable {m : Type → Type} {σ : Type} [Monad m]

/-- Unify two lists pairwise from left to right, ending with the shorter. -/
def unifyPairs (unify : σ → Term → Term → m (Option σ)) :
    σ → List Term → List Term → m (Option σ)
  | state, a :: as, b :: bs => do
      match ← unify state a b with
      | some next => unifyPairs unify next as bs
      | none => pure none
  | state, _, _ => pure (some state)

/-- Unify two lists pairwise.  Lists of different lengths do not unify. -/
def unifyLists (unify : σ → Term → Term → m (Option σ)) (state : σ) (as bs : List Term) :
    m (Option σ) :=
  if as.length = bs.length then unifyPairs unify state as bs else pure none

/-- Bind a variable to a walked term, unless the term is a compound that the
variable may not be bound to. -/
def bindVar (ops : Bindings m σ) (state : σ) (v : Var) (t : Term) : m (Option σ) := do
  match t with
  | .compound _ _ => if ← ops.forbids state v t then pure none else ops.bind state v t
  | _ => ops.bind state v t

/-- One round: compare the top levels of two terms.  The wildcard unifies with
everything and is not bound. -/
def unifyRound (ops : Bindings m σ) (unify : σ → Term → Term → m (Option σ))
    (state : σ) (a b : Term) : m (Option σ) :=
  let a := ops.walk state a
  let b := ops.walk state b
  if a = b then pure (some state)
  else
    match a, b with
    | .var .wildcard, _ => pure (some state)
    | _, .var .wildcard => pure (some state)
    | .var v, t => ops.bindVar state v t
    | t, .var v => ops.bindVar state v t
    | .compound f as, .compound g bs =>
        if as.length = bs.length ∧ f = g then unifyPairs unify state as bs else pure none
    | _, _ => pure none

end Bindings

namespace Substitution

/-- A substitution as a store of bindings. -/
def store (check : OccursCheck) : Bindings (Except Unending) Substitution where
  walk := walk
  forbids s v t :=
    match check with
    | .enabled => s.occurs v t
    | .disabled => pure false
  bind s v t := pure (s.extend v t)

/-- Unification down to a given depth of nested compounds.  What lies deeper is left
to another function. -/
def unifyBy (deeper : Substitution → Term → Term → Except Unending (Option Substitution))
    (check : OccursCheck) :
    Nat → Substitution → Term → Term → Except Unending (Option Substitution)
  | 0, s, a, b => deeper s a b
  | depth + 1, s, a, b => (store check).unifyRound (unifyBy deeper check depth) s a b

/-- Unification, which has no end if it goes deeper than allowed. -/
def unifyWithin (check : OccursCheck) (depth : Nat) (s : Substitution) (a b : Term) :
    Except Unending (Option Substitution) :=
  unifyBy (fun _ _ _ => throw .unending) check depth s a b

/-- Depth allowed for unification over a given number of nodes.  On a path of
nested rounds without a binding no pair of nodes comes back, and no more
variables get bound than there are nodes. -/
def rounds (nodes : Nat) : Nat := (nodes + 1) * (nodes + 1) * (nodes + 1)

/-- Unify two terms, extending the bindings. -/
def unify (check : OccursCheck) (s : Substitution) (a b : Term) :
    Except Unending (Option Substitution) :=
  unifyBy (fun r c d => unifyWithin check (rounds (s.nodes + a.size + b.size)) r c d)
    check shallow s a b

/-- Unify two lists of terms pairwise.  Their lengths must agree. -/
def unifyAll (check : OccursCheck) (s : Substitution) (as bs : List Term) :
    Except Unending (Option Substitution) :=
  Bindings.unifyLists
    (unifyBy (fun r c d =>
      unifyWithin check (rounds (s.nodes + Term.sizes as + Term.sizes bs)) r c d) check shallow)
    s as bs

theorem unifyBy_unifyWithin (check : OccursCheck) (depth more : Nat) :
    unifyBy (unifyWithin check more) check depth = unifyWithin check (more + depth) := by
  induction depth with
  | zero => rfl
  | succ depth ih =>
      funext s a b
      rw [unifyBy, ih]
      rfl

theorem unify_eq (check : OccursCheck) (s : Substitution) (a b : Term) :
    s.unify check a b =
      unifyWithin check (rounds (s.nodes + a.size + b.size) + shallow) s a b :=
  congrFun (congrFun (congrFun (unifyBy_unifyWithin check shallow _) s) a) b

theorem unifyAll_eq (check : OccursCheck) (s : Substitution) (as bs : List Term) :
    s.unifyAll check as bs =
      Bindings.unifyLists (unifyWithin check
        (rounds (s.nodes + Term.sizes as + Term.sizes bs) + shallow)) s as bs :=
  congrArg (Bindings.unifyLists · s as bs) (unifyBy_unifyWithin check shallow _)

end Substitution

end RelationalSolver
