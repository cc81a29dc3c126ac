import RelationalSolver.Proofs.Context.Ground
import RelationalSolver.Proofs.Context.Operations
import RelationalSolver.Proofs.Unification.Coupling
import RelationalSolver.Proofs.Unification.Locality

/-!
# Equations and constraints restrict solutions

A bare context has no hooks and no planner, makes the occurrence test, and has acyclic
bindings without wildcards.  Whatever unifies two wildcard-free terms in it leaves a
bare context, with no other solutions than those that make the terms equal.  Nothing is
asked of the constraints that are stored, and facets may stand in each other's way.
-/

namespace RelationalSolver.Context

open Substitution Engine

variable {ctx next last : Context} {v : Var} {a b t : Term} {new more : Set Assignment}
variable {result : Option Context}

/-- No hooks, no planner, the occurrence test, and acyclic bindings without wildcards. -/
structure Bare (ctx : Context) : Prop where
  unhooked : ctx.hooks? = none
  unplanned : ctx.get .planner = []
  checked : ctx.occursCheck = .enabled
  acyclic : ctx.substitution.Acyclic
  free : ctx.substitution.WildcardFree

/-- The context is bare, and its solutions are among those of the first that lie in a
set. -/
structure Restricts (new : Set Assignment) (ctx next : Context) : Prop where
  bare : next.Bare
  within : next.substitution.solutions ⊆ ctx.substitution.solutions ∩ new

theorem Bare.bindsFreely (bare : ctx.Bare) : ctx.BindsFreely := by
  intro registry found
  rw [bare.unhooked] at found
  cases found

theorem Bare.of_sameFixed (bare : ctx.Bare) (same : ctx.SameFixed next)
    (acyclic : next.substitution.Acyclic) (free : next.substitution.WildcardFree) : next.Bare where
  unhooked := (same .hooks trivial).trans bare.unhooked
  unplanned := (congrArg (Option.getD · _) (same .planner trivial)).trans bare.unplanned
  checked := (congrArg (Option.getD · _) (same .unification trivial)).trans bare.checked
  acyclic := acyclic
  free := free

theorem Bare.walk_wildcardFree (bare : ctx.Bare) (free : t.WildcardFree) :
    (ctx.walk t).WildcardFree :=
  walk_mem Term.WildcardFree (fun v t bound => (bare.free v t bound).2) free

/-- A bare context has a solution, what its variables resolve to. -/
theorem Bare.nonempty (bare : ctx.Bare) : ctx.substitution.solutions.Nonempty :=
  ⟨_, resolution_mem bare.acyclic⟩

namespace Restricts

theorem refl (bare : ctx.Bare) (holds : ctx.substitution.solutions ⊆ new) :
    Restricts new ctx ctx := ⟨bare, Set.subset_inter subset_rfl holds⟩

theorem trans (first : Restricts new ctx next) (second : Restricts more next last) :
    Restricts (new ∩ more) ctx last := by
  refine ⟨second.bare, fun θ solves => ?_⟩
  have later := second.within solves
  have earlier := first.within later.1
  exact ⟨earlier.1, earlier.2, later.2⟩

theorem solutions_subset (restricts : Restricts new ctx next) :
    next.substitution.solutions ⊆ ctx.substitution.solutions :=
  restricts.within.trans Set.inter_subset_left

/-- The solutions of the first context meet the set. -/
theorem nonempty (restricts : Restricts new ctx next) :
    (ctx.substitution.solutions ∩ new).Nonempty := restricts.bare.nonempty.mono restricts.within

theorem congr (restricts : Restricts new ctx next)
    (same : ctx.substitution.solutions ∩ new = ctx.substitution.solutions ∩ more) :
    Restricts more ctx next := ⟨restricts.bare, same ▸ restricts.within⟩

end Restricts

/-! ## Constraints -/

/-- Any facet but the constraints. -/
private def notConstraints (key : FacetKey) : Prop := key ≠ .constraints

private theorem not_notConstraints : ¬ notConstraints .constraints := fun different => different rfl

/-- What writes nothing but constraints restricts nothing. -/
private theorem Bare.restricts_of_keeps (bare : ctx.Bare)
    (leaves : Leaves (Keeps notConstraints) ctx result) :
    Leaves (Restricts Set.univ) ctx result := by
  intro next found
  have keeps := leaves next found
  have same : next.substitution = ctx.substitution :=
    congrArg (Option.getD · _) (keeps .substitutions nofun)
  have fixed : ctx.SameFixed next := by
    intro key isFixed
    apply keeps key
    rintro rfl
    exact isFixed
  refine ⟨bare.of_sameFixed fixed (same ▸ bare.acyclic) (same ▸ bare.free), ?_⟩
  rw [same, Set.inter_univ]

theorem Bare.constrain (bare : ctx.Bare) (c : Constraint) :
    Detached (ctx.constrain c) (Leaves (Restricts Set.univ) ctx) :=
  (constrain_keeps not_notConstraints c).mono fun _ => bare.restricts_of_keeps

theorem Bare.constrainAll (bare : ctx.Bare) (constraints : List Constraint) :
    Detached (ctx.constrainAll constraints) (Leaves (Restricts Set.univ) ctx) :=
  (constrainAll_keeps not_notConstraints constraints).mono fun _ => bare.restricts_of_keeps

/-! ## Bindings -/

/-- A binding holds in what comes of it. -/
theorem Bare.bindBy {unify : Context → Term → Term → Engine (Option Context)} (bare : ctx.Bare)
    (unifies : Unifies SameFixed unify) (unbound : ctx.substitution.lookup v = none)
    (named : v ≠ .wildcard) (free : t.WildcardFree) (apart : ¬ ctx.substitution.Reaches t v) :
    Detached (Context.bindBy unify ctx v t) (Leaves (Restricts (unifiers (.var v) t)) ctx) := by
  apply ((bindBy_writes bare.bindsFreely v t).and (bindBy_keeps unifies v t)).mono
  rintro result ⟨writes, keeps⟩ next found
  have inserted := (writes next found).2
  refine ⟨bare.of_sameFixed (keeps next found) ?_ ?_, ?_⟩
  · exact inserted ▸ acyclic_insert bare.acyclic apart
  · exact inserted ▸ wildcardFree_insert bare.free named free
  · rw [inserted, solutions_insert unbound]

/-- The occurrence test is whether the variable stands in what the term resolves to. -/
theorem forbids_eq (unify : Context → Term → Term → Engine (Option Context))
    (checked : ctx.occursCheck = .enabled) (acyclic : ctx.substitution.Acyclic)
    (v : Var) (t : Term) :
    (store unify).forbids ctx v t = pure ((ctx.substitution.resolve t).mentions v) := by
  simp only [Context.store, checked, occurs_eq_mentions acyclic]
  rfl

theorem Bare.forbids_eq {unify : Context → Term → Term → Engine (Option Context)} (bare : ctx.Bare)
    (v : Var) (t : Term) :
    (store unify).forbids ctx v t = pure ((ctx.substitution.resolve t).mentions v) :=
  Context.forbids_eq unify bare.checked bare.acyclic v t

/-- A variable that is walked to is unbound, and so is what it meets, if that is a variable. -/
theorem walked_of_meets (acyclic : ctx.substitution.Acyclic)
    (meets : Bindings.Meets ctx.walk a b v t) :
    ctx.substitution.lookup v = none ∧ ctx.substitution.Walked t := by
  have ended := walked_walk acyclic
  rcases meets.2.2 with ⟨atVar, rfl⟩ | ⟨atVar, rfl⟩
  · exact ⟨ended a v atVar, ended b⟩
  · exact ⟨ended b v atVar, ended a⟩

theorem unifiers_of_meets (meets : Bindings.Meets ctx.walk a b v t) :
    unifiers (.var v) t = unifiers (ctx.walk a) (ctx.walk b) := by
  rcases meets.2.2 with ⟨atVar, rfl⟩ | ⟨atVar, rfl⟩
  · rw [atVar]
  · rw [atVar, unifiers_comm]

/-- The occurrence test decides about the binding of a variable to a walked term. -/
theorem bindVar_eq (unify : Context → Term → Term → Engine (Option Context))
    (checked : ctx.occursCheck = .enabled) (acyclic : ctx.substitution.Acyclic)
    (walked : ctx.substitution.Walked t) (different : t ≠ .var v) :
    (store unify).bindVar ctx v t =
      if (ctx.substitution.resolve t).mentions v then pure none
      else Context.bindBy unify ctx v t := by
  have simple := apart_of_walked walked different
  cases t with
  | var w => exact (if_neg (by simp [simple])).symm
  | atom x => exact (if_neg (by simp)).symm
  | compound f args =>
      rw [Bindings.bindVar, forbids_eq unify checked acyclic, pure_bind]
      rfl

theorem Bare.bindVar {unify : Context → Term → Term → Engine (Option Context)} (bare : ctx.Bare)
    (unifies : Unifies SameFixed unify) (unbound : ctx.substitution.lookup v = none)
    (named : v ≠ .wildcard) (free : t.WildcardFree) (walked : ctx.substitution.Walked t)
    (different : t ≠ .var v) :
    Detached ((store unify).bindVar ctx v t) (Leaves (Restricts (unifiers (.var v) t)) ctx) := by
  rw [bindVar_eq unify bare.checked bare.acyclic walked different]
  split
  · exact .pure leaves_none
  · rename_i outside
    apply bare.bindBy unifies unbound named free
    exact fun reaches => outside ((mentions_resolve bare.acyclic).mpr ⟨reaches, unbound⟩)

/-! ## Unification -/

section Rounds

variable {unify outer : Context → Term → Term → Engine (Option Context)}

/-- A way to unify terms that leaves only assignments that make them equal. -/
def Equates (unify : Context → Term → Term → Engine (Option Context)) : Prop :=
  ∀ ctx a b, Bare ctx → a.WildcardFree → b.WildcardFree →
    Detached (unify ctx a b) (Leaves (Restricts (unifiers a b)) ctx)

theorem Equates.unifyPairs (equates : Equates unify) : ∀ (as bs : List Term) (ctx : Context),
    ctx.Bare → as.length = bs.length → (∀ a ∈ as, a.WildcardFree) → (∀ b ∈ bs, b.WildcardFree) →
    Detached (Bindings.unifyPairs unify ctx as bs) (Leaves (Restricts (pairUnifiers as bs)) ctx)
  | [], [], ctx, bare, _, _, _ => .pure (leaves_some (.refl bare (by simp)))
  | a :: as, b :: bs, ctx, bare, lengths, left, right => by
      rw [List.forall_mem_cons] at left right
      rw [Bindings.unifyPairs, pairUnifiers_cons]
      apply (equates ctx a b bare left.1 right.1).bind
      intro result leaves
      cases result with
      | none => exact .pure leaves_none
      | some next =>
          have first := leaves next rfl
          apply (equates.unifyPairs as bs next first.bare (by simpa using lengths) left.2
            right.2).mono
          exact fun _ rest last found => first.trans (rest last found)

theorem Equates.unifyRound (equates : Equates unify) (unifies : Unifies SameFixed outer) :
    Equates ((store outer).unifyRound unify) := by
  intro ctx a b bare left right
  have walks : ∀ t, (store outer).walk ctx t = ctx.walk t := fun _ => rfl
  have same : ctx.substitution.solutions ∩ unifiers (ctx.walk a) (ctx.walk b) =
      ctx.substitution.solutions ∩ unifiers a b := Bindings.unifiers_inter_walk a b
  -- The round compares what the terms walk to; the unifiers are converted at the end.
  suffices walked : Detached ((store outer).unifyRound unify ctx a b)
      (Leaves (Restricts (unifiers (ctx.walk a) (ctx.walk b))) ctx) from
    walked.mono fun _ leaves next found => (leaves next found).congr same
  have freeLeft := bare.walk_wildcardFree left
  have freeRight := bare.walk_wildcardFree right
  apply Bindings.unifyRound_cases (motive := fun x =>
    Detached x (Leaves (Restricts (unifiers (ctx.walk a) (ctx.walk b))) ctx))
  · intro equal
    rw [walks, walks] at equal
    exact .pure (leaves_some (.refl bare (by simp [equal])))
  · rintro (anonymous | anonymous)
    · exact absurd (anonymous ▸ freeLeft : (Term.var .wildcard).WildcardFree) nofun
    · exact absurd (anonymous ▸ freeRight : (Term.var .wildcard).WildcardFree) nofun
  · intro v t meets
    obtain ⟨unbound, walked⟩ := walked_of_meets bare.acyclic meets
    have free : t.WildcardFree := meets.of_walks freeLeft freeRight
    rw [← unifiers_of_meets meets]
    exact bare.bindVar unifies unbound meets.1 free walked meets.2.1
  · intro f as bs atLeft atRight lengths
    rw [walks] at atLeft atRight
    rw [atLeft] at freeLeft
    rw [atRight] at freeRight
    rw [atLeft, atRight, unifiers_compound]
    simp only [true_and]
    exact equates.unifyPairs as bs ctx bare lengths (fun _ => freeLeft.arg) (fun _ => freeRight.arg)
  · exact fun _ => .pure leaves_none

end Rounds

theorem equates_unifyWithin (depth : Nat) : Equates (unifyWithin depth) := by
  induction depth with
  | zero => exact fun _ _ _ _ _ _ => .throw _
  | succ depth ih => exact ih.unifyRound (condenseThen_keeps (unifyWithin_keeps depth))

/-- Unifying two terms leaves only solutions that make them equal. -/
theorem Bare.unify (bare : ctx.Bare) (left : a.WildcardFree) (right : b.WildcardFree) :
    Detached (ctx.unify a b) (Leaves (Restricts (unifiers a b)) ctx) := by
  rw [Context.unify, unifyOver_eq, condenseThen_of_unhooked bare.unhooked]
  have same : ctx.substitution.solutions ∩ unifiers (ctx.walk a) (ctx.walk b) =
      ctx.substitution.solutions ∩ unifiers a b := Bindings.unifiers_inter_walk a b
  apply (equates_unifyWithin _ ctx _ _ bare (bare.walk_wildcardFree left)
    (bare.walk_wildcardFree right)).mono
  exact fun _ leaves next found => (leaves next found).congr same

/-- Unifying two lists leaves only solutions that make them equal. -/
theorem Bare.unifyAll (bare : ctx.Bare) {as bs : List Term} (left : ∀ a ∈ as, a.WildcardFree)
    (right : ∀ b ∈ bs, b.WildcardFree) :
    Detached (ctx.unifyAll as bs) (Leaves (Restricts (pairUnifiers as bs)) ctx) := by
  rw [Context.unifyAll, unifyOver_eq, Bindings.unifyLists]
  split
  · rename_i lengths
    exact (equates_unifyWithin _).unifyPairs as bs ctx bare lengths left right
  · exact .pure leaves_none

end RelationalSolver.Context

namespace RelationalSolver.Operation

open Engine Context

variable {ctx next : Context}

/-- The terms of an equation are free of wildcards. -/
def WildcardFree : Operation → Prop
  | .unify a b => a.WildcardFree ∧ b.WildcardFree
  | .constrain _ => True

instance : DecidablePred WildcardFree
  | .unify a b => inferInstanceAs (Decidable (a.WildcardFree ∧ b.WildcardFree))
  | .constrain _ => inferInstanceAs (Decidable True)

/-- Equations and constraints that are added with success leave only solutions that were
there before. -/
theorem runAll_restricts {ops : List Operation} (bare : ctx.Bare)
    (free : ∀ op ∈ ops, op.WildcardFree) (returned : Returns (runAll ctx ops) (some next)) :
    Restricts Set.univ ctx next := by
  induction ops generalizing ctx with
  | nil =>
      obtain ⟨before, after, ran⟩ := returned
      cases (runs_pure.mp ran).1
      exact .refl bare (Set.subset_univ _)
  | cons op ops ih =>
      obtain ⟨before, after, ran⟩ := returned
      obtain ⟨result, between, first, rest⟩ := runs_bind.mp ran
      rw [List.forall_mem_cons] at free
      cases result with
      | none => cases (runs_pure.mp rest).1
      | some mid =>
          have earlier : ctx.substitution.solutions ⊇ mid.substitution.solutions ∧ mid.Bare := by
            cases op with
            | unify a b =>
                have restricts := (bare.unify free.1.1 free.1.2).of_returns first.returns mid rfl
                exact ⟨restricts.solutions_subset, restricts.bare⟩
            | constrain c =>
                have restricts := (bare.constrain c).of_returns first.returns mid rfl
                exact ⟨restricts.solutions_subset, restricts.bare⟩
          have later := ih earlier.2 free.2 rest.returns
          refine ⟨later.bare, ?_⟩
          rw [Set.inter_univ]
          exact later.solutions_subset.trans earlier.1

end RelationalSolver.Operation
