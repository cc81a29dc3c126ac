import RelationalSolver.Context.Unification
import RelationalSolver.Proofs.Constraint.Renumbering
import RelationalSolver.Proofs.Session.Renumbering

/-!
# Contexts under other numbers

A context knows the same under other numbers if its facets do.  Storing, settling and
propagating constraints, walking, binding and unifying then do the same, and observers are
told the same under other numbers.
-/

namespace RelationalSolver

open Engine

open Agrees (Tried)

/-! ## Facets -/

/-- Values that are the same but for the numbers of variables.  Hooks look on and condense,
but do not take part in bindings. -/
def FacetKey.Renumbers (ρ : ℕ → ℕ) : (key : FacetKey) → key.Value → key.Value → Prop
  | .substitutions, s, other => Substitution.Renumbers ρ s other
  | .unification, check, other => other = check
  | .hooks, registry, other => other = registry ∧ Registry.bindHooks registry = []
  | .counters, table, other => other = table
  | .constraints, store, other => ConstraintStore.Renumbers ρ store other
  | .planner, pipeline, other => other = pipeline
  | .custom _, value, other => other = value

/-- Facets of one key with values that are the same but for the numbers of variables. -/
inductive Facet.Renumbers (ρ : ℕ → ℕ) : Facet → Facet → Prop
  | mk (key : FacetKey) {value other : key.Value} : key.Renumbers ρ value other →
      Facet.Renumbers ρ ⟨key, value⟩ ⟨key, other⟩

namespace Context

/-- The contexts know the same but for the numbers of variables. -/
def Renumbers (ρ : ℕ → ℕ) (ctx other : Context) : Prop :=
  List.Forall₂ (Facet.Renumbers ρ) ctx.facets other.facets

variable {ρ : ℕ ↪o ℕ} {ctx other : Context} {c cOther : Constraint}
variable {facets others : List Facet}

theorem lookupIn_renumber (same : List.Forall₂ (Facet.Renumbers ρ) facets others)
    (key : FacetKey) :
    Option.Rel (key.Renumbers ρ) (lookupIn key facets) (lookupIn key others) := by
  induction same with
  | nil => exact .none
  | cons here _ ih =>
      obtain ⟨held, value⟩ := here
      rw [lookupIn, lookupIn]
      by_cases found : held = key
      · subst found
        rw [dif_pos rfl, dif_pos rfl]
        exact .some value
      · rw [dif_neg found, dif_neg found]
        exact ih

theorem putIn_renumber {facet facetOther : Facet} (set : facet.Renumbers ρ facetOther)
    (same : List.Forall₂ (Facet.Renumbers ρ) facets others) :
    List.Forall₂ (Facet.Renumbers ρ) (putIn facet facets) (putIn facetOther others) := by
  induction same with
  | nil => exact .cons set .nil
  | cons here there ih =>
      have kept := here
      obtain ⟨held, value⟩ := here
      obtain ⟨key, setValue⟩ := set
      rw [putIn, putIn]
      split
      · exact .cons (.mk key setValue) there
      · exact .cons kept ih

/-- The facet that holds a name has the same key. -/
theorem find?_renumber (name : String) (same : List.Forall₂ (Facet.Renumbers ρ) facets others) :
    (others.find? (·.key.name = name)).map (·.key) =
      (facets.find? (·.key.name = name)).map (·.key) := by
  induction same with
  | nil => rfl
  | cons here _ ih =>
      obtain ⟨held, value⟩ := here
      rw [List.find?_cons, List.find?_cons]
      dsimp only
      cases decide (held.name = name) with
      | true => rfl
      | false => exact ih

theorem initial_renumber (ρ : ℕ ↪o ℕ) (key : FacetKey) :
    key.Renumbers ρ key.initial key.initial := by
  cases key with
  | substitutions => exact Substitution.renumbers_empty ρ
  | hooks => exact ⟨rfl, rfl⟩
  | constraints => exact .empty ρ
  | _ => rfl

namespace Renumbers

section Reading

variable (same : ctx.Renumbers ρ other)
include same

theorem get? (key : FacetKey) : Option.Rel (key.Renumbers ρ) (ctx.get? key) (other.get? key) :=
  lookupIn_renumber same key

theorem get (key : FacetKey) : key.Renumbers ρ (ctx.get key) (other.get key) := by
  have found := same.get? key
  unfold Context.get
  generalize ctx.get? key = value at *
  generalize other.get? key = valueOther at *
  cases found with
  | none => exact initial_renumber ρ key
  | some found => exact found

theorem substitution : ctx.substitution.Renumbers ρ other.substitution := same.get .substitutions

theorem occursCheck : other.occursCheck = ctx.occursCheck := same.get .unification

theorem planner : other.get .planner = ctx.get .planner := same.get .planner

theorem counters : other.get .counters = ctx.get .counters := same.get .counters

theorem pending : ConstraintStore.Renumbers ρ (ctx.get .constraints) (other.get .constraints) :=
  same.get .constraints

theorem hooks? : other.hooks? = ctx.hooks? := by
  have found := same.get? .hooks
  rw [Context.hooks?, Context.hooks?]
  generalize ctx.get? .hooks = value at *
  generalize other.get? .hooks = valueOther at *
  cases found with
  | none => rfl
  | some found => exact congrArg some found.1

theorem bindHooks {registry : Registry} (found : ctx.hooks? = some registry) :
    registry.bindHooks = [] := by
  have both := same.get? .hooks
  rw [Context.hooks?] at found
  rw [found] at both
  generalize other.get? .hooks = value at both
  cases both with
  | some both => exact both.2

theorem counter (name : String) : other.counter name = ctx.counter name := by
  rw [Context.counter, same.counters, Context.counter]

theorem bindingsMade : other.bindingsMade = ctx.bindingsMade := same.counter _

theorem walk (t : Term) : other.walk (t.renumber ρ) = (ctx.walk t).renumber ρ :=
  same.substitution.walk t

theorem resolve (t : Term) : other.resolve (t.renumber ρ) = (ctx.resolve t).renumber ρ :=
  same.substitution.resolve t

theorem freeVars (t : Term) :
    other.freeVars (t.renumber ρ) = (ctx.freeVars t).map (·.renumber ρ) :=
  same.substitution.freeVars t

theorem nodes_eq : other.nodes = ctx.nodes := by
  unfold nodes
  rw [same.substitution.nodes_eq, same.hooks?]

/-! ## Writing -/

/-- A facet is set in both contexts, or collides in both with the same one. -/
theorem trySet (key : FacetKey) {value valueOther : key.Value}
    (set : key.Renumbers ρ value valueOther) :
    Tried (Renumbers ρ) (ctx.trySet key value) (other.trySet key valueOther) := by
  have found := find?_renumber key.name same
  have written : Renumbers ρ ⟨putIn ⟨key, value⟩ ctx.facets⟩
      ⟨putIn ⟨key, valueOther⟩ other.facets⟩ := putIn_renumber (.mk key set) same
  unfold Context.trySet
  generalize ctx.facets.find? _ = holder at *
  generalize other.facets.find? _ = holderOther at *
  cases holder <;> cases holderOther <;> simp only [Option.map_some, Option.map_none] at found
  · exact .result written
  · cases found
  · cases found
  · rename_i held heldOther
    have key : heldOther.key = held.key := Option.some.inj found
    dsimp only
    rw [key]
    split
    · exact .result written
    · exact .failed _

theorem set (key : FacetKey) {value valueOther : key.Value}
    (set : key.Renumbers ρ value valueOther) :
    Engine.Renumbers ρ (Renumbers ρ) (ctx.set key value) (other.set key valueOther) :=
  .orCrash (same.trySet key set)

theorem bump (name : String) :
    Engine.Renumbers ρ (Renumbers ρ) (ctx.bump name) (other.bump name) := by
  unfold Context.bump
  rw [same.counters, same.counter]
  exact same.set .counters rfl

theorem fire (key : EventKey) (payload : Payload) :
    Engine.Renumbers ρ Eq (ctx.fire key payload) (other.fire key (payload.renumber ρ)) := by
  unfold Context.fire
  rw [same.hooks?, same.bindingsMade]
  split
  · exact .fire _ key payload _
  · exact .pure rfl

theorem condense (value : Term) (chain : List Var) :
    Engine.Renumbers ρ (Renumbers ρ) (ctx.condense value chain)
      (other.condense (value.renumber ρ) (chain.map (·.renumber ρ))) := by
  unfold Context.condense
  apply (same.set .substitutions (same.substitution.condense chain value)).bind
  intro next nextOther set
  apply (set.bump "condensed").bind
  intro last lastOther bumped
  exact (bumped.fire .condensed (.condense value chain)).bind fun _ _ _ => .pure bumped

/-! ## Constraints -/

theorem watched (held : c.Renumbers ρ cOther) :
    other.watched cOther = (ctx.watched c).map (·.renumber ρ) := by
  unfold Context.watched
  rw [held.vars]
  exact same.substitution.freeVars_foldl c.vars c.vars

theorem attach (held : c.Renumbers ρ cOther) :
    Engine.Renumbers ρ (fun result resultOther =>
        result.1.Renumbers ρ resultOther.1 ∧ resultOther.2 = result.2)
      (ctx.attach c) (other.attach cOther) := by
  unfold Context.attach
  rw [same.watched held]
  apply (same.set .constraints (same.pending.insert held _)).bind
  exact fun next nextOther set => .pure ⟨set, same.pending.nextId⟩

theorem evaluate (held : c.Renumbers ρ cOther) :
    Engine.Renumbers ρ (Verdict.Renumbers ρ) (ctx.evaluate c) (other.evaluate cOther) := by
  unfold Context.evaluate
  rw [same.occursCheck]
  exact .ofBounded (held.evaluate _ same.substitution)

theorem settle {store storeOther : ConstraintStore} (stored : store.Renumbers ρ storeOther)
    (id : Nat) (held : c.Renumbers ρ cOther) (cause : Var) (follow : List Var) :
    Engine.Renumbers ρ (Option.Rel (ConstraintStore.Renumbers ρ))
      (ctx.settle store id c cause follow)
      (other.settle storeOther id cOther (cause.renumber ρ) (follow.map (·.renumber ρ))) := by
  apply (same.evaluate held).bind
  intro verdict verdictOther decided
  cases decided with
  | satisfied => exact .pure (.some (stored.remove id))
  | pending => exact .pure (.some (stored.indexUnder id follow))
  | @simplified next nextOther simpler =>
      dsimp only
      rw [simpler.vars, ← List.map_append]
      exact .pure (.some (stored.replace id simpler _))
  | violated =>
      dsimp only
      rw [held.name]
      exact (same.fire .violated (.violation cause c.name)).bind fun _ _ _ => .pure .none

theorem settleAll (cause : Var) (follow : List Var) (ids : List Nat)
    {store storeOther : ConstraintStore} (stored : store.Renumbers ρ storeOther) :
    Engine.Renumbers ρ (Option.Rel (ConstraintStore.Renumbers ρ))
      (ctx.settleAll cause follow store ids)
      (other.settleAll (cause.renumber ρ) (follow.map (·.renumber ρ)) storeOther ids) := by
  induction ids generalizing store storeOther with
  | nil => exact .pure (.some stored)
  | cons id ids ih =>
      have entry := stored.entries id
      rw [Context.settleAll, Context.settleAll]
      generalize store.get? id = c at *
      generalize storeOther.get? id = cOther at *
      cases entry with
      | none => exact ih stored
      | some held =>
          apply (same.settle stored id held cause follow).bind
          intro result resultOther settled
          cases settled with
          | none => exact .pure .none
          | some next => exact ih next

/-- Constraints that were settled in the same way are stored. -/
theorem restore : ∀ {result resultOther : Option ConstraintStore},
    Option.Rel (ConstraintStore.Renumbers ρ) result resultOther →
    Engine.Renumbers ρ (Option.Rel (Renumbers ρ))
      (match result with
        | none => pure none
        | some store => some <$> ctx.set .constraints store)
      (match resultOther with
        | none => pure none
        | some store => some <$> other.set .constraints store) := by
  intro result resultOther settled
  cases settled with
  | none => exact .pure .none
  | some stored => exact (same.set .constraints stored).map fun _ _ => .some

theorem check (id : Nat) :
    Engine.Renumbers ρ (Option.Rel (Renumbers ρ)) (ctx.check id) (other.check id) := by
  have entry := same.pending.entries id
  unfold Context.check
  dsimp only
  generalize ConstraintStore.get? (ctx.get .constraints) id = c at *
  generalize ConstraintStore.get? (other.get .constraints) id = cOther at *
  cases entry with
  | none => exact .pure (.some same)
  | some held =>
      apply (same.settle same.pending id held .wildcard []).bind
      exact fun _ _ => same.restore

theorem constrain (held : c.Renumbers ρ cOther) :
    Engine.Renumbers ρ (Option.Rel (Renumbers ρ)) (ctx.constrain c)
      (other.constrain cOther) := by
  apply (same.attach held).bind
  rintro ⟨next, _⟩ ⟨nextOther, id⟩ ⟨attached, rfl⟩
  exact attached.check id

theorem propagate (v : Var) (t : Term) :
    Engine.Renumbers ρ (Option.Rel (Renumbers ρ)) (ctx.propagate v t)
      (other.propagate (v.renumber ρ) (t.renumber ρ)) := by
  unfold Context.propagate
  rw [same.freeVars]
  dsimp only
  rw [same.pending.idsFor]
  split
  · exact .pure (.some same)
  · apply (same.settleAll v _ _ same.pending).bind
    intro result resultOther settled
    cases settled with
    | none => exact .pure .none
    | some stored => exact same.restore (.some stored)

end Reading

theorem constrainAll {constraints held : List Constraint}
    (alike : List.Forall₂ (Constraint.Renumbers ρ) constraints held)
    (same : ctx.Renumbers ρ other) :
    Engine.Renumbers ρ (Option.Rel (Renumbers ρ)) (ctx.constrainAll constraints)
      (other.constrainAll held) := by
  induction alike generalizing ctx other with
  | nil => exact .pure (.some same)
  | cons here _ ih =>
      apply (same.constrain here).bind
      intro result resultOther holds
      cases holds with
      | none => exact .pure .none
      | some next => exact ih next

/-! ## Unification -/

theorem runWalkHooks (value : Term) (chain : List Var) (hooks : List WalkHook)
    (same : ctx.Renumbers ρ other) :
    Engine.Renumbers ρ (Renumbers ρ) (ctx.runWalkHooks value chain hooks)
      (other.runWalkHooks (value.renumber ρ) (chain.map (·.renumber ρ)) hooks) := by
  induction hooks generalizing ctx other with
  | nil => exact .pure same
  | cons hook hooks ih =>
      rw [Context.runWalkHooks, Context.runWalkHooks, List.length_map]
      dsimp only
      split
      · exact (same.condense value chain).bind fun _ _ => ih
      · exact ih same

theorem walkCondensed (t : Term) (same : ctx.Renumbers ρ other) :
    Engine.Renumbers ρ (fun result resultOther =>
        result.1.Renumbers ρ resultOther.1 ∧ resultOther.2 = result.2.renumber ρ)
      (ctx.walkCondensed t) (other.walkCondensed (t.renumber ρ)) := by
  unfold Context.walkCondensed
  rw [same.hooks?]
  split
  · exact .pure ⟨same, same.walk t⟩
  · dsimp only
    rw [same.substitution.walkChain, List.length_map]
    split
    · exact .pure ⟨same, rfl⟩
    · exact (same.runWalkHooks _ _ _).bind fun _ _ walked => .pure ⟨walked, rfl⟩

section Unifying

section Binding

variable (unify unifyOther : Context → Term → Term → Engine (Option Context))

/-- The hooks do not take part in bindings, whatever they unify by. -/
theorem bindBy (v : Var) (t : Term) (same : ctx.Renumbers ρ other) :
    Engine.Renumbers ρ (Option.Rel (Renumbers ρ)) (ctx.bindBy unify v t)
      (other.bindBy unifyOther (v.renumber ρ) (t.renumber ρ)) := by
  have extended := same.substitution.extend v t
  unfold Context.bindBy
  generalize ctx.substitution.extend v t = s at *
  generalize other.substitution.extend (v.renumber ρ) (t.renumber ρ) = sOther at *
  cases extended with
  | none => exact .pure .none
  | some bound =>
      apply (Engine.Renumbers.ofCollision (same.trySet .substitutions bound)).bind
      intro next nextOther set
      apply (set.bump "bindings").bind
      intro counted countedOther bumped
      apply (bumped.fire .bound (.bind v t)).bind
      intro _ _ _
      apply (bumped.propagate v t).bind
      intro result resultOther propagated
      cases propagated with
      | none => exact .pure .none
      | some last =>
          dsimp only
          rw [last.hooks?]
          split
          · exact .pure (.some last)
          · rename_i registry found
            rw [last.bindHooks found]
            exact .pure (.some last)

theorem bindVar (v : Var) (t : Term) (same : ctx.Renumbers ρ other) :
    Engine.Renumbers ρ (Option.Rel (Renumbers ρ)) ((store unify).bindVar ctx v t)
      ((store unifyOther).bindVar other (v.renumber ρ) (t.renumber ρ)) := by
  cases t with
  | var w => exact same.bindBy unify unifyOther v (.var w)
  | atom a => exact same.bindBy unify unifyOther v (.atom a)
  | compound f args =>
      have binds := same.bindBy unify unifyOther v (.compound f args)
      have forbids : Engine.Renumbers ρ Eq ((store unify).forbids ctx v (.compound f args))
          ((store unifyOther).forbids other (v.renumber ρ)
            ((Term.compound f args).renumber ρ)) := by
        unfold store
        dsimp only
        rw [same.occursCheck, same.substitution.occurs]
        split
        · exact .ofBounded (Coupling.alike_refl _)
        · exact .pure rfl
      rw [Term.renumber_compound] at binds forbids ⊢
      apply forbids.bind
      rintro inside _ rfl
      cases inside with
      | true => exact .pure .none
      | false => exact binds

end Binding

variable {unify unifyOther : Context → Term → Term → Engine (Option Context)}

theorem condenseThen (a b : Term)
    (unifies : ∀ ctx other a b, ctx.Renumbers ρ other →
      Engine.Renumbers ρ (Option.Rel (Renumbers ρ)) (unify ctx a b)
        (unifyOther other (a.renumber ρ) (b.renumber ρ)))
    (same : ctx.Renumbers ρ other) :
    Engine.Renumbers ρ (Option.Rel (Renumbers ρ)) (condenseThen unify ctx a b)
      (Context.condenseThen unifyOther other (a.renumber ρ) (b.renumber ρ)) := by
  apply (same.walkCondensed a).bind
  rintro ⟨next, left⟩ ⟨nextOther, _⟩ ⟨walked, rfl⟩
  apply (walked.walkCondensed b).bind
  rintro ⟨last, right⟩ ⟨lastOther, _⟩ ⟨ended, rfl⟩
  exact unifies last lastOther left right ended

theorem unifyBy (below : ∀ ctx other a b, ctx.Renumbers ρ other →
      Engine.Renumbers ρ (Option.Rel (Renumbers ρ)) (unify ctx a b)
        (unifyOther other (a.renumber ρ) (b.renumber ρ)))
    (depth : Nat) (a b : Term) (same : ctx.Renumbers ρ other) :
    Engine.Renumbers ρ (Option.Rel (Renumbers ρ)) (Context.unifyBy unify depth ctx a b)
      (Context.unifyBy unifyOther depth other (a.renumber ρ) (b.renumber ρ)) := by
  induction depth generalizing ctx other a b with
  | zero => exact below ctx other a b same
  | succ depth ih =>
      exact (renumbering ρ).unifyRound_renumber (fun _ _ a b related => ih a b related)
        same.walk (fun v t => same.bindVar _ _ v t) a b same

end Unifying

theorem unifyOver {size sizeOther : Unit → Nat} (sizes : sizeOther () = size ()) (a b : Term)
    (origin : ctx.Renumbers ρ other) {next nextOther : Context}
    (same : next.Renumbers ρ nextOther) :
    Engine.Renumbers ρ (Option.Rel (Renumbers ρ)) (ctx.unifyOver size next a b)
      (other.unifyOver sizeOther nextOther (a.renumber ρ) (b.renumber ρ)) := by
  unfold Context.unifyOver
  rw [origin.nodes_eq, sizes]
  refine unifyBy (fun _ _ a b same => ?_) _ a b same
  exact unifyBy (fun _ _ _ _ _ => .throw _) _ a b same

/-- Terms are unified in the same way, and observers are told the same. -/
theorem unify (a b : Term) (same : ctx.Renumbers ρ other) :
    Engine.Renumbers ρ (Option.Rel (Renumbers ρ)) (ctx.unify a b)
      (other.unify (a.renumber ρ) (b.renumber ρ)) := by
  refine condenseThen a b (fun _ _ a b related => ?_) same
  refine unifyOver ?_ a b same related
  rw [Term.size_renumber, Term.size_renumber]

theorem unifyAll (as bs : List Term) (same : ctx.Renumbers ρ other) :
    Engine.Renumbers ρ (Option.Rel (Renumbers ρ)) (ctx.unifyAll as bs)
      (other.unifyAll (as.map (·.renumber ρ)) (bs.map (·.renumber ρ))) := by
  refine (renumbering ρ).unifyLists_renumber (fun _ _ a b related => ?_) as bs same
  refine unifyOver ?_ a b same related
  rw [Term.sizes_renumber, Term.sizes_renumber]

end Renumbers

end Context

end RelationalSolver
