import RelationalSolver.Context.Propagation

/-!
# Unification in a context

Every binding is counted, reported, propagated and handed to the bind hooks,
which may unify further terms.  At the top level of a unification, chains of
variables are handed to the walk hooks first.
-/

namespace RelationalSolver

namespace Context

/-- Run the walk hooks on a chain of variables, in order. -/
def runWalkHooks (ctx : Context) (value : Term) (chain : List Var) :
    List WalkHook → Engine Context
  | [] => pure ctx
  | hook :: hooks => do
      let ctx ← if hook.minLength ≤ chain.length then ctx.condense value chain else pure ctx
      ctx.runWalkHooks value chain hooks

/-- Walk a term.  A chain of two or more variables is handed to the walk hooks,
which may condense it. -/
def walkCondensed (ctx : Context) (t : Term) : Engine (Context × Term) := do
  match ctx.hooks? with
  | none => pure (ctx, ctx.walk t)
  | some registry =>
      let (value, chain) := ctx.substitution.walkChain t
      if chain.length < 2 then pure (ctx, value)
      else
        let ctx ← ctx.runWalkHooks value chain registry.walkHooks
        pure (ctx, value)

/-- The guard of a bind hook lets a binding through to the action. -/
def admits (ctx : Context) (v : Var) (t : Term) : BindGuard → Bool
  | .always => true
  | .ofVar w => v = w
  | .toTerm u => t = u
  | .after count => count < ctx.bindingsMade

/-- Run the action of a bind hook.  Nothing comes back if it rejects the
binding. -/
def runAction (unify : Context → Term → Term → Engine (Option Context)) (ctx : Context) :
    BindAction → Engine (Option Context)
  | .reject => pure none
  | .bump name => some <$> ctx.bump name
  | .setFacet facet value => some <$> Engine.ofCollision (ctx.trySet (.custom facet) value)
  | .addToFacet facet amount =>
      some <$> Engine.ofCollision (ctx.tryUpdate (.custom facet) (· + amount))
  | .unify a b => unify ctx a b
  | .constrain c => ctx.constrain c

/-- Run the bind hooks on a binding, in order, until one rejects it. -/
def runBindHooks (unify : Context → Term → Term → Engine (Option Context)) (v : Var) (t : Term) :
    Context → List BindHook → Engine (Option Context)
  | ctx, [] => pure (some ctx)
  | ctx, hook :: hooks => do
      if ctx.admits v t hook.guard then
        match ← ctx.runAction unify hook.action with
        | some next => runBindHooks unify v t next hooks
        | none => pure none
      else runBindHooks unify v t ctx hooks

/-- Record a binding: count and report it, propagate it, and run the bind hooks,
which unify by the given function. -/
def bindBy (unify : Context → Term → Term → Engine (Option Context)) (ctx : Context)
    (v : Var) (t : Term) : Engine (Option Context) := do
  match ctx.substitution.extend v t with
  | none => pure none
  | some s => do
      let ctx ← Engine.ofCollision (ctx.trySet .substitutions s)
      let ctx ← ctx.bump "bindings"
      ctx.fire .bound (.bind v t)
      match ← ctx.propagate v t with
      | none => pure none
      | some ctx =>
          match ctx.hooks? with
          | none => pure (some ctx)
          | some registry => runBindHooks unify v t ctx registry.bindHooks

/-- A context as a store of bindings. -/
def store (unify : Context → Term → Term → Engine (Option Context)) : Bindings Engine Context where
  walk := walk
  forbids ctx v t :=
    match ctx.occursCheck with
    | .enabled => Engine.ofBounded (ctx.substitution.occurs v t)
    | .disabled => pure false
  bind := bindBy unify

/-- Walk both terms, with the walk hooks looking on, and unify what they walk to. -/
def condenseThen (unify : Context → Term → Term → Engine (Option Context)) (ctx : Context)
    (a b : Term) : Engine (Option Context) := do
  let (ctx, a) ← ctx.walkCondensed a
  let (ctx, b) ← ctx.walkCondensed b
  unify ctx a b

/-- Unification down to a given depth of nested compounds and bind hooks.  What lies
deeper is left to another function. -/
def unifyBy (deeper : Context → Term → Term → Engine (Option Context)) :
    Nat → Context → Term → Term → Engine (Option Context)
  | 0, ctx, a, b => deeper ctx a b
  | depth + 1, ctx, a, b =>
      (store (condenseThen (unifyBy deeper depth))).unifyRound (unifyBy deeper depth) ctx a b

/-- Unification, which has no end if it goes deeper than allowed. -/
def unifyWithin (depth : Nat) (ctx : Context) (a b : Term) : Engine (Option Context) :=
  unifyBy (fun _ _ _ => throw .unending) depth ctx a b

/-- Number of nodes that unification can come across besides those of its own
terms. -/
def nodes (ctx : Context) : Nat :=
  ctx.substitution.nodes + (ctx.hooks?.map Registry.nodes).getD 0

/-- Unification that may go as deep as it takes over the nodes of a context and so
many others. -/
def unifyOver (ctx : Context) (others : Unit → Nat) :
    Context → Term → Term → Engine (Option Context) :=
  unifyBy
    (fun next c d => unifyWithin (Substitution.rounds (ctx.nodes + others ())) next c d)
    Substitution.shallow

/-- Unify two terms. -/
def unify (ctx : Context) (a b : Term) : Engine (Option Context) :=
  condenseThen (ctx.unifyOver fun _ => a.size + b.size) ctx a b

/-- Unify two lists of terms pairwise.  Their lengths must agree. -/
def unifyAll (ctx : Context) (as bs : List Term) : Engine (Option Context) :=
  Bindings.unifyLists (ctx.unifyOver fun _ => Term.sizes as + Term.sizes bs) ctx as bs

/-- Unify pairs of terms one after the other.  A pair that does not unify is
passed over, and a collision stops everything. -/
def unifyPairs (ctx : Context) (pairs : List (Term × Term)) : Engine Context :=
  Engine.insist (pairs.foldlM (fun ctx (a, b) => do pure ((← ctx.unify a b).getD ctx)) ctx)

/-- A context with facets of a user, in which pairs of terms are unified. -/
def ofFacets (facets : List (CustomFacet × Int)) (pairs : List (Term × Term)) :
    Engine Context := do
  let ctx ← facets.foldlM (fun (ctx : Context) (facet, value) => ctx.set (.custom facet) value)
    empty
  ctx.unifyPairs pairs

/-- Bind a variable to a term. -/
def bind (ctx : Context) (v : Var) (t : Term) : Engine (Option Context) :=
  bindBy (condenseThen (ctx.unifyOver fun _ => t.size + 1)) ctx v t

theorem unifyBy_unifyWithin (depth more : Nat) :
    unifyBy (unifyWithin more) depth = unifyWithin (more + depth) := by
  induction depth with
  | zero => rfl
  | succ depth ih =>
      funext ctx a b
      rw [unifyBy, ih]
      rfl

theorem unifyOver_eq (ctx : Context) (others : Unit → Nat) :
    ctx.unifyOver others =
      unifyWithin (Substitution.rounds (ctx.nodes + others ()) + Substitution.shallow) :=
  unifyBy_unifyWithin Substitution.shallow _

end Context

end RelationalSolver
