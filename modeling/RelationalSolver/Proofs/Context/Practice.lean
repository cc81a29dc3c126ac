import RelationalSolver.Context.Unification
import RelationalSolver.Proofs.Session.Lifecycle
import RelationalSolver.Proofs.Unification.Coupling

/-!
# What operations on contexts keep up

A practice is a property of computations that passes from parts to wholes and holds of whatever
adding equations and constraints to a context consists of.  No more is asked of events than
that searches fire them.
-/

namespace RelationalSolver

open Engine

/-- A property of computations that holds of whatever operations on contexts consist of. -/
structure Practice (Keeps : {α : Type} → Engine α → Prop) : Prop where
  pure : ∀ {α : Type} (a : α), Keeps (pure a)
  bind : ∀ {α β : Type} {x : Engine α} {f : α → Engine β}, Keeps x → (∀ a, Keeps (f a)) →
    Keeps (x >>= f)
  throw : ∀ {α : Type} (halt : Halt), Keeps (throw halt : Engine α)
  fire : ∀ (ctx : Context) (key : EventKey) (payload : Payload), EventKey.OfSearch key →
    Keeps (ctx.fire key payload)

namespace Practice

variable {Keeps : {α : Type} → Engine α → Prop} {α β : Type} {ctx : Context} {c : Constraint}
variable {v : Var} {t : Term}
variable {inner outer : Context → Term → Term → Engine (Option Context)}

theorem map (p : Practice Keeps) {x : Engine α} (g : α → β) (keeps : Keeps x) :
    Keeps (g <$> x) := by
  rw [map_eq_pure_bind]
  exact p.bind keeps fun a => p.pure (g a)

theorem ofBounded (p : Practice Keeps) (bounded : Except Unending α) :
    Keeps (Engine.ofBounded bounded) := by
  cases bounded with
  | ok a => exact p.pure a
  | error e => exact p.throw _

theorem ofCollision (p : Practice Keeps) (attempted : Except Collision α) :
    Keeps (Engine.ofCollision attempted) := by
  cases attempted with
  | ok a => exact p.pure a
  | error e => exact p.throw _

theorem set (p : Practice Keeps) (ctx : Context) (key : FacetKey) (value : key.Value) :
    Keeps (ctx.set key value) := by
  rw [Context.set]
  cases ctx.trySet key value with
  | ok next => exact p.pure next
  | error e => exact p.throw _

theorem bump (p : Practice Keeps) (ctx : Context) (name : String) : Keeps (ctx.bump name) :=
  p.set ctx _ _

/-! ## Constraints -/

theorem settle (p : Practice Keeps) (store : ConstraintStore) (id : Nat) (cause : Var)
    (follow : List Var) : Keeps (ctx.settle store id c cause follow) := by
  apply p.bind (p.ofBounded _)
  intro verdict
  cases verdict with
  | violated => exact p.bind (p.fire ctx _ _ (by decide)) fun _ => p.pure _
  | satisfied => exact p.pure _
  | simplified next => exact p.pure _
  | pending => exact p.pure _

theorem settleAll (p : Practice Keeps) (cause : Var) (follow : List Var) (ids : List Nat)
    (store : ConstraintStore) : Keeps (ctx.settleAll cause follow store ids) := by
  induction ids generalizing store with
  | nil => exact p.pure _
  | cons id ids ih =>
      rw [Context.settleAll]
      split
      · exact ih store
      · apply p.bind (p.settle store id cause follow)
        intro result
        cases result with
        | none => exact p.pure _
        | some next => exact ih next

theorem check (p : Practice Keeps) (id : Nat) : Keeps (ctx.check id) := by
  rw [Context.check]
  split
  · exact p.pure _
  · apply p.bind (p.settle _ id _ _)
    intro result
    cases result with
    | none => exact p.pure _
    | some store => exact p.map _ (p.set ctx _ _)

theorem constrain (p : Practice Keeps) (ctx : Context) (c : Constraint) :
    Keeps (ctx.constrain c) :=
  p.bind (p.bind (p.set ctx _ _) fun _ => p.pure _) fun result => p.check result.2

theorem propagate (p : Practice Keeps) (v : Var) (t : Term) : Keeps (ctx.propagate v t) := by
  rw [Context.propagate]
  split
  · exact p.pure _
  · apply p.bind (p.settleAll v _ _ _)
    intro result
    cases result with
    | none => exact p.pure _
    | some store => exact p.map _ (p.set ctx _ _)

/-! ## Unification -/

theorem runWalkHooks (p : Practice Keeps) (value : Term) (chain : List Var)
    (hooks : List WalkHook) (ctx : Context) : Keeps (ctx.runWalkHooks value chain hooks) := by
  induction hooks generalizing ctx with
  | nil => exact p.pure _
  | cons hook hooks ih =>
      rw [Context.runWalkHooks]
      split
      · have condenses : Keeps (ctx.condense value chain) :=
          p.bind (p.set ctx _ _) fun next => p.bind (p.bump next _) fun counted =>
            p.bind (p.fire counted _ _ (by decide)) fun _ => p.pure _
        exact p.bind condenses ih
      · exact ih ctx

theorem walkCondensed (p : Practice Keeps) (ctx : Context) (t : Term) :
    Keeps (ctx.walkCondensed t) := by
  rw [Context.walkCondensed]
  split
  · exact p.pure _
  · dsimp only
    split
    · exact p.pure _
    · exact p.bind (p.runWalkHooks _ _ _ ctx) fun _ => p.pure _

theorem runAction (p : Practice Keeps) (unifies : ∀ ctx a b, Keeps (inner ctx a b))
    (ctx : Context) (action : BindAction) : Keeps (ctx.runAction inner action) := by
  cases action with
  | reject => exact p.pure _
  | bump name => exact p.map _ (p.bump ctx name)
  | setFacet facet value => exact p.map _ (p.ofCollision _)
  | addToFacet facet amount => exact p.map _ (p.ofCollision _)
  | unify a b => exact unifies ctx a b
  | constrain c => exact p.constrain ctx c

theorem runBindHooks (p : Practice Keeps) (unifies : ∀ ctx a b, Keeps (inner ctx a b))
    (hooks : List BindHook) (ctx : Context) : Keeps (Context.runBindHooks inner v t ctx hooks) := by
  induction hooks generalizing ctx with
  | nil => exact p.pure _
  | cons hook hooks ih =>
      rw [Context.runBindHooks]
      split
      · apply p.bind (p.runAction unifies ctx _)
        intro result
        cases result with
        | none => exact p.pure _
        | some next => exact ih next
      · exact ih ctx

theorem bindBy (p : Practice Keeps) (unifies : ∀ ctx a b, Keeps (inner ctx a b))
    (ctx : Context) (v : Var) (t : Term) : Keeps (Context.bindBy inner ctx v t) := by
  rw [Context.bindBy]
  split
  · exact p.pure _
  · apply p.bind (p.ofCollision _)
    intro bound
    apply p.bind (p.bump bound _)
    intro counted
    apply p.bind (p.fire counted _ _ (by decide))
    intro _
    apply p.bind (p.propagate v t)
    intro result
    cases result with
    | none => exact p.pure _
    | some settled =>
        dsimp only
        split
        · exact p.pure _
        · exact p.runBindHooks unifies _ settled

theorem condenseThen (p : Practice Keeps) (unifies : ∀ ctx a b, Keeps (inner ctx a b))
    (ctx : Context) (a b : Term) : Keeps (Context.condenseThen inner ctx a b) :=
  p.bind (p.walkCondensed ctx a) fun first =>
    p.bind (p.walkCondensed first.1 b) fun _ => unifies _ _ _

theorem unifyPairs (p : Practice Keeps) (unifies : ∀ ctx a b, Keeps (inner ctx a b)) :
    ∀ (as bs : List Term) (ctx : Context), Keeps (Bindings.unifyPairs inner ctx as bs)
  | a :: as, b :: bs, ctx => by
      rw [Bindings.unifyPairs]
      apply p.bind (unifies ctx a b)
      intro result
      cases result with
      | none => exact p.pure _
      | some next => exact p.unifyPairs unifies as bs next
  | [], _, _ => p.pure _
  | _ :: _, [], _ => p.pure _

theorem bindVar (p : Practice Keeps) (binds : ∀ ctx v t, Keeps (Context.bindBy outer ctx v t))
    (ctx : Context) (v : Var) (t : Term) : Keeps ((Context.store outer).bindVar ctx v t) := by
  cases t with
  | var w => exact binds ctx v _
  | atom a => exact binds ctx v _
  | compound f args =>
      have forbids : Keeps ((Context.store outer).forbids ctx v (.compound f args)) := by
        unfold Context.store
        dsimp only
        split
        · exact p.ofBounded _
        · exact p.pure _
      apply p.bind forbids
      intro inside
      split
      · exact p.pure _
      · exact binds ctx v _

theorem unifyWithin (p : Practice Keeps) (depth : Nat) :
    ∀ (ctx : Context) (a b : Term), Keeps (ctx.unifyWithin depth a b) := by
  induction depth with
  | zero => exact fun _ _ _ => p.throw _
  | succ depth ih =>
      intro ctx a b
      refine Bindings.unifyRound_cases (motive := Keeps) (fun _ => p.pure _) (fun _ => p.pure _)
        (fun v t _ => ?_) (fun _ as bs _ _ _ => ?_) fun _ => p.pure _
      · exact p.bindVar (p.bindBy (p.condenseThen ih)) ctx v t
      · exact p.unifyPairs ih as bs ctx

theorem unify (p : Practice Keeps) (ctx : Context) (a b : Term) : Keeps (ctx.unify a b) := by
  rw [Context.unify, Context.unifyOver_eq]
  exact p.condenseThen (p.unifyWithin _) ctx a b

theorem unifyAll (p : Practice Keeps) (ctx : Context) (as bs : List Term) :
    Keeps (ctx.unifyAll as bs) := by
  rw [Context.unifyAll, Context.unifyOver_eq, Bindings.unifyLists]
  split
  · exact p.unifyPairs (p.unifyWithin _) as bs ctx
  · exact p.pure _

end Practice

/-! ## Events of whole runs -/

namespace Context

theorem fire_eq_tell (ctx : Context) (key : EventKey) (payload : Payload) :
    ctx.fire key payload = modify (·.tell ctx.hooks? ⟨key, payload, ctx.bindingsMade⟩) := by
  rw [fire]
  cases ctx.hooks? with
  | none => rfl
  | some registry => rfl

theorem fire_discreet (ctx : Context) {key : EventKey} (payload : Payload)
    (searches : EventKey.OfSearch key) : Discreet (ctx.fire key payload) := by
  intro before
  rw [fire_eq_tell]
  refine ⟨?_, .tell _ _ before⟩
  change (before.tell ctx.hooks? ⟨key, payload, ctx.bindingsMade⟩).lifecycle = before.lifecycle
  rw [Session.lifecycle_tell, searches.isLifecycle_eq, if_neg Bool.false_ne_true]

end Context

/-- Operations on contexts fire events of searches only. -/
theorem practice_discreet : Practice Discreet where
  pure := .pure
  bind := .bind
  throw := .throw
  fire ctx _ payload := ctx.fire_discreet payload

end RelationalSolver
