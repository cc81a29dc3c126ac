import RelationalSolver.Proofs.Constraint.Addition
import RelationalSolver.Proofs.Context.Narrowing

/-!
# One constraint more in a context

Two quiet contexts have the same bindings and store the same constraints, but for one that only
the first of them holds.  Whatever equations and constraints are added to both, they go on to do
so; or the first one fails, and no solution that the second one still has satisfies the
constraint.
-/

namespace RelationalSolver.Context

open Substitution Constraint ConstraintStore Engine

variable {ctx other next last : Context} {c d : Constraint} {k : Nat} {a b t : Term} {v : Var}
variable {s : Substitution} {x y : Engine (Option Context)}

theorem Quiet.regular (quiet : ctx.Quiet) (acyclic : ctx.substitution.Acyclic)
    (plain : ctx.substitution.WildcardFree) : ctx.Regular where
  checked := quiet.checked
  acyclic := acyclic
  plain := plain
  hooks registry found := by
    rw [quiet.unhooked] at found
    cases found

section Completes

variable {settled settledOther : Except Unending (Option ConstraintStore)}

theorem Completes.of_returns (completes : Completes s x settled)
    (returned : Returns x (some next)) :
    next.Quiet ∧ next.substitution = s ∧ settled = .ok (some next.pending) := by
  obtain ⟨before, after, ran⟩ := returned
  match settled, completes with
  | .ok (some store), ⟨given, same, quiet, bindings, holds⟩ =>
      rw [same] at ran
      cases (runs_pure.mp ran).1
      exact ⟨quiet, bindings, by rw [holds]⟩
  | .ok none, same =>
      rw [same] at ran
      cases (runs_pure.mp ran).1
  | .error _, same =>
      rw [same] at ran
      exact absurd ran not_runs_throw

theorem Completes.detached (completes : Completes s x settled) {condition : Option Context → Prop}
    (fails : condition none) (gives : ∀ next : Context, next.Quiet → next.substitution = s →
      settled = .ok (some next.pending) → condition (some next)) : Detached x condition := by
  match settled, completes with
  | .ok (some store), ⟨next, same, quiet, bindings, holds⟩ =>
      rw [same]
      exact .pure (gives next quiet bindings (by rw [holds]))
  | .ok none, same =>
      rw [same]
      exact .pure fails
  | .error _, same =>
      rw [same]
      exact .throw _

end Completes

/-! ## The index of a context -/

/-- A quiet context whose constraints wait in order. -/
structure Indexed (ctx : Context) : Prop where
  quiet : ctx.Quiet
  ordered : ctx.pending.Ordered

theorem Blank.indexed (blank : ctx.Blank) : ctx.Indexed :=
  ⟨blank.quiet, blank.unconstrained ▸ ordered_empty⟩

theorem Blank.regular (blank : ctx.Blank) : ctx.Regular :=
  blank.quiet.regular (blank.unbound ▸ acyclic_empty) (blank.unbound ▸ wildcardFree_empty)

/-- If the first context is indexed, so is the second. -/
def KeepsIndexed (ctx next : Context) : Prop := ctx.Indexed → next.Indexed

instance : Std.Refl KeepsIndexed := ⟨fun _ => id⟩

instance : IsTrans Context KeepsIndexed := ⟨fun _ _ _ earlier later => later ∘ earlier⟩

theorem Completes.keepsIndexed {follow : List Var} {store : ConstraintStore} {ids : List Nat}
    (completes : Completes s x (settleEach s follow store ids)) (ordered : store.Ordered) :
    Detached x (Leaves KeepsIndexed ctx) := by
  apply completes.detached leaves_none
  intro next quiet _ settled
  exact leaves_some fun _ => ⟨quiet, ordered.settleEach settled⟩

theorem bindBy_keepsIndexed {unify : Context → Term → Term → Engine (Option Context)}
    (unifies : Unifies SameFixed unify) (v : Var) (t : Term) :
    Detached (bindBy unify ctx v t) (Leaves KeepsIndexed ctx) := by
  by_cases indexed : ctx.Indexed
  · cases extended : ctx.substitution.extend v t with
    | none =>
        rw [bindBy, extended]
        exact .pure leaves_none
    | some s => exact (indexed.quiet.bindBy_completes unify extended).keepsIndexed indexed.ordered
  · exact (bindBy_keeps unifies v t).mono fun _ _ _ _ given => absurd given indexed

theorem unifyWithin_keepsIndexed (depth : Nat) : Unifies KeepsIndexed (unifyWithin depth) := by
  induction depth with
  | zero => exact fun ctx a b => .throw _
  | succ depth ih =>
      exact unifyRound_leaves ih fun ctx v t _ =>
        bindBy_keepsIndexed (condenseThen_keeps (unifyWithin_keeps depth)) v t

theorem Indexed.run (indexed : ctx.Indexed) (op : Operation) :
    Detached (op.run ctx) (Leaves KeepsIndexed ctx) := by
  cases op with
  | unify a b =>
      change Detached (ctx.unify a b) _
      rw [Context.unify, indexed.quiet.condenseThen_eq, unifyOver_eq]
      exact unifyWithin_keepsIndexed _ ctx _ _
  | constrain c =>
      exact (indexed.quiet.constrain_completes c).keepsIndexed (indexed.ordered.insert c _)

theorem Indexed.runAll (indexed : ctx.Indexed) (ops : List Operation) :
    Detached (Operation.runAll ctx ops) (Leaves KeepsIndexed ctx) := by
  induction ops generalizing ctx with
  | nil => exact .pure (leaves_some (Std.Refl.refl ctx))
  | cons op ops ih =>
      apply (indexed.run op).bind
      intro result leaves
      cases result with
      | none => exact .pure leaves_none
      | some next =>
          have first := leaves next rfl
          exact (ih (first indexed)).mono fun _ => .of_related first

/-! ## Side by side -/

/-- Two quiet contexts with the same bindings, the first of which holds one constraint more. -/
structure Abreast (c : Constraint) (k : Nat) (ctx other : Context) : Prop where
  quiet : ctx.Quiet
  quietOther : other.Quiet
  same : other.substitution = ctx.substitution
  acyclic : ctx.substitution.Acyclic
  plain : ctx.substitution.WildcardFree
  joined : Joined c k ctx.substitution ctx.substitution [] ctx.pending other.pending

/-- Both computations give contexts that are abreast; or the first gives none, and no solution of
what the second gives satisfies the constraint. -/
def Tracks (c : Constraint) (k : Nat) (x y : Engine (Option Context)) : Prop :=
  (∃ next nextOther, Abreast c k next nextOther ∧ x = pure (some next) ∧
    y = pure (some nextOther)) ∨
  ((∀ next, ¬ Returns x (some next)) ∧
    ∀ nextOther, Returns y (some nextOther) → ∀ θ ∈ nextOther.substitution.solutions, ¬ c.Holds θ)

theorem Abreast.regularOther (abreast : Abreast c k ctx other) : other.Regular :=
  abreast.quietOther.regular (abreast.same ▸ abreast.acyclic) (abreast.same ▸ abreast.plain)

theorem Abreast.walk_eq (abreast : Abreast c k ctx other) (t : Term) :
    other.walk t = ctx.walk t := congrArg (Substitution.walk · t) abreast.same

theorem Abreast.tracks (abreast : Abreast c k ctx other) :
    Tracks c k (pure (some ctx)) (pure (some other)) := .inl ⟨ctx, other, abreast, rfl, rfl⟩

theorem not_returns_pure_none : ¬ Returns (pure none) (some next) := by
  rintro ⟨before, after, ran⟩
  cases (runs_pure.mp ran).1

theorem tracks_none : Tracks c k (pure none) (pure none) :=
  .inr ⟨fun _ => not_returns_pure_none, fun _ returned => absurd returned not_returns_pure_none⟩

/-- What loses solutions only may come after. -/
theorem Tracks.bind {f g : Option Context → Engine (Option Context)} (tracks : Tracks c k x y)
    (narrows : Detached y (Leaves Narrows other))
    (narrowsLater : ∀ next : Context, next.Regular → Detached (g (some next)) (Leaves Narrows next))
    (rest : ∀ next nextOther, Abreast c k next nextOther →
      Tracks c k (f (some next)) (g (some nextOther)))
    (stops : f none = pure none) (stopsOther : g none = pure none) :
    Tracks c k (x >>= f) (y >>= g) := by
  rcases tracks with ⟨next, nextOther, abreast, rfl, rfl⟩ | ⟨fails, loses⟩
  · rw [pure_bind, pure_bind]
    exact rest next nextOther abreast
  · right
    constructor
    · rintro last ⟨before, after, ran⟩
      obtain ⟨result, between, first, later⟩ := runs_bind.mp ran
      cases result with
      | none => exact not_returns_pure_none (stops ▸ later.returns)
      | some next => exact fails next first.returns
    · rintro last ⟨before, after, ran⟩ θ solves
      obtain ⟨result, between, first, later⟩ := runs_bind.mp ran
      cases result with
      | none => exact absurd (stopsOther ▸ later.returns) not_returns_pure_none
      | some next =>
          have regular := (narrows.of_returns first.returns next rfl).regular
          have narrowed := (narrowsLater next regular).of_returns later.returns last rfl
          exact loses next first.returns θ (narrowed.narrows.within solves)

theorem tracks_of_tracking {settled settledOther : Except Unending (Option ConstraintStore)}
    (acyclic : s.Acyclic) (plain : s.WildcardFree) (completes : Completes s x settled)
    (completesOther : Completes s y settledOther)
    (tracking : Tracking (Joined c k s s []) (∀ θ ∈ s.solutions, ¬ c.Holds θ) settled
      settledOther) : Tracks c k x y := by
  rcases tracking with ⟨store, storeOther, joined, rfl, rfl⟩ | ⟨fails, loses⟩
  · obtain ⟨next, rfl, quiet, rfl, rfl⟩ := completes
    obtain ⟨nextOther, rfl, quietOther, same, rfl⟩ := completesOther
    exact Abreast.tracks ⟨quiet, quietOther, same, acyclic, plain, joined⟩
  · right
    constructor
    · exact fun next returned => fails next.pending (completes.of_returns returned).2.2
    · intro next returned
      obtain ⟨_, rfl, given⟩ := completesOther.of_returns returned
      exact loses next.pending given

theorem Abreast.constrain (abreast : Abreast c k ctx other) (d : Constraint) :
    Tracks c k (ctx.constrain d) (other.constrain d) := by
  have completes := abreast.quiet.constrain_completes d
  have completesOther := abreast.quietOther.constrain_completes d
  have watched : other.watched d = ctx.watched d := by
    simp only [Context.watched, freeVars, abreast.same]
  rw [abreast.same, watched] at completesOther
  exact tracks_of_tracking abreast.acyclic abreast.plain completes completesOther
    (abreast.joined.tracking_insert abreast.acyclic abreast.plain d _)

theorem Abreast.bindBy (unify : Context → Term → Term → Engine (Option Context))
    (abreast : Abreast c k ctx other) (unbound : ctx.substitution.lookup v = none)
    (walked : ctx.substitution.Walked t) (named : v ≠ .wildcard) (different : t ≠ .var v)
    (free : t.WildcardFree) (apart : (ctx.substitution.resolve t).mentions v = false) :
    Tracks c k (Context.bindBy unify ctx v t) (Context.bindBy unify other v t) := by
  have extended := extend_of_walked named walked different
  have acyclic : (ctx.substitution.insert v t).Acyclic :=
    abreast.acyclic.insert_apart apart unbound
  have plain := wildcardFree_insert abreast.plain named free
  have completes := abreast.quiet.bindBy_completes unify extended
  have extendedOther : other.substitution.extend v t = some (ctx.substitution.insert v t) := by
    rw [abreast.same]
    exact extended
  have completesOther := abreast.quietOther.bindBy_completes unify extendedOther
  exact tracks_of_tracking acyclic plain completes completesOther
    (abreast.joined.tracking_binding abreast.acyclic acyclic abreast.plain plain named unbound)

/-! ## Unification -/

/-- A way to unify that keeps contexts abreast. -/
def TracksAll (c : Constraint) (k : Nat)
    (unify : Context → Term → Term → Engine (Option Context)) : Prop :=
  ∀ ctx other a b, Abreast c k ctx other → a.WildcardFree → b.WildcardFree →
    Tracks c k (unify ctx a b) (unify other a b)

section Rounds

variable {unify outer : Context → Term → Term → Engine (Option Context)}

theorem TracksAll.unifyPairs (tracks : TracksAll c k unify) (narrows : NarrowsAll unify) :
    ∀ (as bs : List Term) (ctx other : Context), Abreast c k ctx other →
      (∀ a ∈ as, a.WildcardFree) → (∀ b ∈ bs, b.WildcardFree) →
      Tracks c k (Bindings.unifyPairs unify ctx as bs) (Bindings.unifyPairs unify other as bs)
  | [], _, _, _, abreast, _, _ => abreast.tracks
  | _ :: _, [], _, _, abreast, _, _ => abreast.tracks
  | a :: as, b :: bs, ctx, other, abreast, left, right => by
      rw [List.forall_mem_cons] at left right
      rw [Bindings.unifyPairs, Bindings.unifyPairs]
      apply (tracks ctx other a b abreast left.1 right.1).bind
        (narrows other a b abreast.regularOther left.1 right.1)
      · exact fun next regular => narrows.unifyPairs as bs next regular left.2 right.2
      · exact fun next nextOther later =>
          tracks.unifyPairs narrows as bs next nextOther later left.2 right.2
      · rfl
      · rfl

theorem TracksAll.unifyRound (tracks : TracksAll c k unify) (narrows : NarrowsAll unify) :
    TracksAll c k ((store outer).unifyRound unify) := by
  intro ctx other a b abreast left right
  have walks : ∀ t, (store outer).walk ctx t = ctx.walk t := fun _ => rfl
  have regular := abreast.quiet.regular abreast.acyclic abreast.plain
  have freeLeft := regular.walk_wildcardFree left
  have freeRight := regular.walk_wildcardFree right
  apply Bindings.unifyRound_abreast _ _ (abreast.walk_eq)
  · exact fun _ => abreast.tracks
  · exact fun _ => abreast.tracks
  · intro v t meets
    obtain ⟨unbound, walked⟩ := walked_of_meets abreast.acyclic meets
    have free : t.WildcardFree := meets.of_walks freeLeft freeRight
    rw [bindVar_eq outer regular.checked regular.acyclic walked meets.2.1,
      bindVar_eq outer abreast.quietOther.checked (abreast.same ▸ abreast.acyclic)
        (abreast.same ▸ walked) meets.2.1, abreast.same]
    split
    · exact tracks_none
    · rename_i outside
      exact abreast.bindBy outer unbound walked meets.1 meets.2.1 free
        (Bool.eq_false_of_not_eq_true outside)
  · intro f as bs atLeft atRight _
    rw [walks] at atLeft atRight
    exact tracks.unifyPairs narrows as bs ctx other abreast (fun _ => (atLeft ▸ freeLeft).arg)
      (fun _ => (atRight ▸ freeRight).arg)
  · exact fun _ => tracks_none

end Rounds

theorem tracksAll_unifyWithin (depth : Nat) : TracksAll c k (unifyWithin depth) := by
  induction depth with
  | zero => exact fun _ _ _ _ _ _ _ => .inr ⟨fun _ ⟨_, _, ran⟩ => absurd ran not_runs_throw,
      fun _ ⟨_, _, ran⟩ => absurd ran not_runs_throw⟩
  | succ depth ih => exact ih.unifyRound (narrowsAll_unifyWithin depth)

theorem Abreast.unify (abreast : Abreast c k ctx other) (left : a.WildcardFree)
    (right : b.WildcardFree) : Tracks c k (ctx.unify a b) (other.unify a b) := by
  have regular := abreast.quiet.regular abreast.acyclic abreast.plain
  rw [Context.unify, Context.unify, abreast.quiet.condenseThen_eq,
    abreast.quietOther.condenseThen_eq, unifyOver_eq, unifyOver_eq, abreast.quiet.nodes_eq,
    abreast.quietOther.nodes_eq, abreast.same, abreast.walk_eq, abreast.walk_eq]
  exact tracksAll_unifyWithin _ ctx other _ _ abreast (regular.walk_wildcardFree left)
    (regular.walk_wildcardFree right)

/-! ## Equations and constraints -/

/-- Equations and constraints are added to both. -/
theorem Abreast.runAll (abreast : Abreast c k ctx other) {ops : List Operation}
    (free : ∀ op ∈ ops, op.WildcardFree) :
    Tracks c k (Operation.runAll ctx ops) (Operation.runAll other ops) := by
  induction ops generalizing ctx other with
  | nil => exact abreast.tracks
  | cons op ops ih =>
      rw [List.forall_mem_cons] at free
      have regular := abreast.regularOther
      have runs : Tracks c k (op.run ctx) (op.run other) ∧
          Detached (op.run other) (Leaves Narrows other) := by
        cases op with
        | unify a b =>
            exact ⟨abreast.unify free.1.1 free.1.2, regular.unify free.1.1 free.1.2⟩
        | constrain d => exact ⟨abreast.constrain d, regular.constrain d⟩
      apply runs.1.bind runs.2
      · exact fun next regular => regular.runAll free.2
      · exact fun next nextOther later => ih later free.2
      · rfl
      · rfl

/-- The constraint is added to one of two equal contexts. -/
theorem Indexed.constrain_tracks (indexed : ctx.Indexed) (acyclic : ctx.substitution.Acyclic)
    (plain : ctx.substitution.WildcardFree) (proper : c.Proper) :
    Tracks c ctx.pending.nextId (ctx.constrain c) (pure (some ctx)) := by
  have unchanged : Completes ctx.substitution (pure (some ctx)) (.ok (some ctx.pending)) :=
    ⟨ctx, rfl, indexed.quiet, rfl, rfl⟩
  apply tracks_of_tracking acyclic plain (indexed.quiet.constrain_completes c) unchanged
  apply tracking_start indexed.ordered acyclic plain proper
  exact fun v member w named reached =>
    mem_watched.mpr (.inr ⟨v, member, Term.mem_vars.mpr ⟨reached, named⟩⟩)

end RelationalSolver.Context
