import RelationalSolver.Constraint.Evaluation
import RelationalSolver.Context.Facet
import RelationalSolver.Session.Basic

/-!
# Propagation of constraints

A constraint waits for the variables that it reaches.  After a binding, those
that wait for the bound variable are evaluated again: a violated one fails the
branch, a satisfied one is dropped, a simplified one takes the place of the old,
and a pending one goes on to wait for the variables of the bound term as well.
-/

namespace RelationalSolver

namespace Context

/-- Fire an event on the registry of the branch, if there is one. -/
def fire (ctx : Context) (key : EventKey) (payload : Payload) : Engine Unit :=
  match ctx.hooks? with
  | some registry => Engine.fire registry key payload ctx.bindingsMade
  | none => pure ()

/-- Set a facet of the solver where a collision cannot be reported. -/
def set (ctx : Context) (key : FacetKey) (value : key.Value) : Engine Context :=
  Engine.orCrash (ctx.trySet key value)

/-- Count one more under a name. -/
def bump (ctx : Context) (name : String) : Engine Context :=
  ctx.set .counters ((ctx.get .counters).insert name (ctx.counter name + 1))

/-- Bind every variable of a chain directly to the value it walks to. -/
def condense (ctx : Context) (value : Term) (chain : List Var) : Engine Context := do
  let ctx ← ctx.set .substitutions (ctx.substitution.condense chain value)
  let ctx ← ctx.bump "condensed"
  ctx.fire .condensed (.condense value chain)
  pure ctx

/-- The variables that a constraint starts to wait for: its own, and those that
they reach. -/
def watched (ctx : Context) (c : Constraint) : List Var :=
  c.vars.foldl (fun seen v => appendAllNew seen (ctx.freeVars (.var v))) c.vars

/-- Store a constraint without evaluating it. -/
def attach (ctx : Context) (c : Constraint) : Engine (Context × Nat) := do
  let (store, id) := (ctx.get .constraints).insert c (ctx.watched c)
  let ctx ← ctx.set .constraints store
  pure (ctx, id)

/-- Evaluate a constraint.  A violation is reported for the variable whose
binding caused it. -/
def evaluate (ctx : Context) (c : Constraint) : Engine Verdict :=
  Engine.ofBounded (c.evaluate ctx.occursCheck ctx.substitution)

/-- Evaluate a stored constraint and act on the verdict.  The cause is the
variable just bound, and the constraint may go on to wait for others. -/
def settle (ctx : Context) (store : ConstraintStore) (id : Nat) (c : Constraint)
    (cause : Var) (follow : List Var) : Engine (Option ConstraintStore) := do
  match ← ctx.evaluate c with
  | .violated => do
      ctx.fire .violated (.violation cause c.name)
      pure none
  | .satisfied => pure (some (store.remove id))
  | .simplified next => pure (some (store.replace id next (next.vars ++ follow)))
  | .pending => pure (some (store.indexUnder id follow))

/-- Evaluate one stored constraint.  Nothing comes back if it is violated. -/
def check (ctx : Context) (id : Nat) : Engine (Option Context) := do
  let store := ctx.get .constraints
  match store.get? id with
  | none => pure (some ctx)
  | some c =>
      match ← ctx.settle store id c .wildcard [] with
      | none => pure none
      | some store => some <$> ctx.set .constraints store

/-- Store a constraint and evaluate it once. -/
def constrain (ctx : Context) (c : Constraint) : Engine (Option Context) := do
  let (ctx, id) ← ctx.attach c
  ctx.check id

/-- Store and evaluate constraints one after the other. -/
def constrainAll (ctx : Context) : List Constraint → Engine (Option Context)
  | [] => pure (some ctx)
  | c :: cs => do
      match ← ctx.constrain c with
      | some next => next.constrainAll cs
      | none => pure none

/-- Settle the constraints with the given ids, as far as they are still stored. -/
def settleAll (ctx : Context) (cause : Var) (follow : List Var) :
    ConstraintStore → List Nat → Engine (Option ConstraintStore)
  | store, [] => pure (some store)
  | store, id :: ids =>
      match store.get? id with
      | none => settleAll ctx cause follow store ids
      | some c => do
          match ← ctx.settle store id c cause follow with
          | some next => settleAll ctx cause follow next ids
          | none => pure none

/-- Settle the constraints that wait for a variable just bound to a term. -/
def propagate (ctx : Context) (v : Var) (t : Term) : Engine (Option Context) := do
  let store := ctx.get .constraints
  match store.idsFor v with
  | [] => pure (some ctx)
  | ids =>
      match ← ctx.settleAll v (ctx.freeVars t) store ids with
      | some store => some <$> ctx.set .constraints store
      | none => pure none

end Context

end RelationalSolver
