import Mathlib.Order.Defs.Unbundled
import RelationalSolver.Context.Unification
import RelationalSolver.Proofs.Session.Engine

/-!
# Operations on contexts are detached

What adding an equation or a constraint to a context gives does not depend on the
session, whatever hooks there are.  An operation writes its own facets and leaves the
others alone; the planner, the hooks and the setting of the occurrence test are written
by none.
-/

namespace RelationalSolver

/-- The facet is set when a query is built, and by nothing that a search does. -/
def FacetKey.IsFixed : FacetKey → Prop
  | .planner | .hooks | .unification => True
  | _ => False

/-- The facet is not one that recording a binding writes. -/
def FacetKey.IsAside : FacetKey → Prop
  | .substitutions | .counters | .constraints => False
  | _ => True

namespace FacetKey

theorem IsFixed.isAside {key : FacetKey} (fixed : key.IsFixed) : key.IsAside := by
  cases key <;> first | exact fixed | exact trivial

theorem not_isFixed_substitutions : ¬ IsFixed .substitutions := id

theorem not_isFixed_counters : ¬ IsFixed .counters := id

theorem not_isFixed_constraints : ¬ IsFixed .constraints := id

theorem not_isFixed_custom (facet : CustomFacet) : ¬ IsFixed (.custom facet) := id

end FacetKey

namespace Context

open Engine FacetKey

variable {ctx next last : Context} {key : FacetKey} {value : key.Value} {result : Option Context}
variable {kept : FacetKey → Prop} {R : Context → Context → Prop}

/-- Some facets are those of the first context. -/
def Keeps (kept : FacetKey → Prop) (ctx next : Context) : Prop :=
  ∀ key, kept key → next.get? key = ctx.get? key

/-- The facets that searches do not write are those of the first context. -/
abbrev SameFixed : Context → Context → Prop := Keeps IsFixed

/-- If there is a context, it is related to the first. -/
def Leaves (R : Context → Context → Prop) (ctx : Context) (result : Option Context) : Prop :=
  ∀ next, result = some next → R ctx next

/-- The planner is the one of the context. -/
def SamePlanner (ctx next : Context) : Prop := next.get? .planner = ctx.get? .planner

/-- If there is a context, its planner is the one of the first. -/
def Passes (ctx : Context) (result : Option Context) : Prop :=
  ∀ next, result = some next → ctx.SamePlanner next

theorem Keeps.refl (ctx : Context) : Keeps kept ctx ctx := fun _ _ => rfl

theorem Keeps.trans (earlier : Keeps kept ctx next) (later : Keeps kept next last) :
    Keeps kept ctx last :=
  fun key asked => (later key asked).trans (earlier key asked)

theorem Keeps.mono {fewer : FacetKey → Prop} (keeps : Keeps kept ctx next)
    (less : ∀ key, fewer key → kept key) : Keeps fewer ctx next :=
  fun key asked => keeps key (less key asked)

instance : Std.Refl (Keeps kept) := ⟨Keeps.refl⟩

instance : IsTrans Context (Keeps kept) := ⟨fun _ _ _ => Keeps.trans⟩

theorem SamePlanner.trans (earlier : ctx.SamePlanner next) (later : next.SamePlanner last) :
    ctx.SamePlanner last := Eq.trans later earlier

theorem leaves_none : Leaves R ctx none := fun _ same => nomatch same

theorem leaves_some (related : R ctx next) : Leaves R ctx (some next) := by
  intro last equal
  cases equal
  exact related

theorem Leaves.of_related [IsTrans Context R] (earlier : R ctx next)
    (later : Leaves R next result) : Leaves R ctx result :=
  fun last same => IsTrans.trans ctx next last earlier (later last same)

/-- Whatever leaves the fixed facets alone passes the planner on. -/
theorem Leaves.passes (leaves : Leaves SameFixed ctx result) : ctx.Passes result :=
  fun next same => leaves next same .planner trivial

theorem keeps_of_trySet (free : ¬ kept key) (success : ctx.trySet key value = .ok next) :
    Keeps kept ctx next := by
  intro other asked
  apply get?_of_trySet_of_ne success
  rintro rfl
  exact free asked

theorem set_keeps (free : ¬ kept key) : Detached (ctx.set key value) (Keeps kept ctx) :=
  .orCrash fun _ => keeps_of_trySet free

theorem bump_keeps (free : ¬ kept .counters) (name : String) :
    Detached (ctx.bump name) (Keeps kept ctx) :=
  set_keeps free

theorem bump_counts (name : String) :
    Detached (ctx.bump name) fun next => next.counter name = ctx.counter name + 1 := by
  apply Detached.orCrash
  intro next success
  simp [counter, get, get?_of_trySet success]

theorem nextOrdinal_receive (s : Session) (key : EventKey) (payload : Payload) (bindings : Nat)
    (observer : Observer) :
    (s.receive key payload bindings observer).nextOrdinal = s.nextOrdinal := by
  cases observer <;> rfl

theorem fire_detached (key : EventKey) (payload : Payload) :
    Detached (ctx.fire key payload) fun _ => True := by
  rw [fire]
  split
  · apply Detached.modifying _ trivial
    intro s
    generalize Registry.receivers _ key = observers
    induction observers generalizing s with
    | nil => rfl
    | cons observer observers ih =>
        rw [List.foldl_cons, ih, nextOrdinal_receive]
  · exact .pure trivial

theorem always_fire (ctx : Context) (key : EventKey) (payload : Payload) :
    Always (ctx.fire key payload) () := by
  rw [fire]
  split
  · exact always_modify _
  · exact always_pure ()

/-! ## Constraints -/

theorem settle_detached (store : ConstraintStore) (id : Nat) (c : Constraint) (cause : Var)
    (follow : List Var) : Detached (ctx.settle store id c cause follow) fun _ => True := by
  apply Detached.bind (Detached.ofBounded fun _ _ => trivial)
  intro verdict _
  cases verdict with
  | violated => exact (fire_detached _ _).bind fun _ _ => .pure trivial
  | satisfied => exact .pure trivial
  | simplified simpler => exact .pure trivial
  | pending => exact .pure trivial

theorem settleAll_detached (cause : Var) (follow : List Var) (store : ConstraintStore)
    (ids : List Nat) : Detached (ctx.settleAll cause follow store ids) fun _ => True := by
  induction ids generalizing store with
  | nil => exact .pure trivial
  | cons id ids ih =>
      rw [settleAll]
      split
      · exact ih store
      · apply (settle_detached _ _ _ _ _).bind
        intro result _
        cases result with
        | none => exact .pure trivial
        | some next => exact ih next

section Storing

variable (free : ¬ kept .constraints)
include free

theorem store_keeps (store : ConstraintStore) :
    Detached (some <$> ctx.set .constraints store) (Leaves (Keeps kept) ctx) :=
  (set_keeps free).map fun _ => leaves_some

theorem check_keeps (id : Nat) : Detached (ctx.check id) (Leaves (Keeps kept) ctx) := by
  rw [check]
  split
  · exact .pure (leaves_some (.refl ctx))
  · apply (settle_detached _ _ _ _ _).bind
    intro result _
    cases result with
    | none => exact .pure leaves_none
    | some store => exact store_keeps free store

theorem constrain_keeps (c : Constraint) :
    Detached (ctx.constrain c) (Leaves (Keeps kept) ctx) := by
  have attached : Detached (ctx.attach c) fun result => Keeps kept ctx result.1 :=
    (set_keeps free).bind fun _ same => .pure same
  apply attached.bind
  exact fun result same => (check_keeps free result.2).mono fun _ => .of_related same

theorem constrainAll_keeps (constraints : List Constraint) :
    Detached (ctx.constrainAll constraints) (Leaves (Keeps kept) ctx) := by
  induction constraints generalizing ctx with
  | nil => exact .pure (leaves_some (.refl ctx))
  | cons c constraints ih =>
      apply (constrain_keeps free c).bind
      intro result leaves
      cases result with
      | none => exact .pure leaves_none
      | some next => exact ih.mono fun _ => .of_related (leaves next rfl)

theorem propagate_keeps (v : Var) (t : Term) :
    Detached (ctx.propagate v t) (Leaves (Keeps kept) ctx) := by
  rw [propagate]
  split
  · exact .pure (leaves_some (.refl ctx))
  · apply (settleAll_detached _ _ _ _).bind
    intro result _
    cases result with
    | none => exact .pure leaves_none
    | some store => exact store_keeps free store

end Storing

theorem constrain_detached (c : Constraint) : Detached (ctx.constrain c) ctx.Passes :=
  (constrain_keeps not_isFixed_constraints c).mono fun _ => Leaves.passes

theorem constrainAll_detached (constraints : List Constraint) :
    Detached (ctx.constrainAll constraints) ctx.Passes :=
  (constrainAll_keeps not_isFixed_constraints constraints).mono fun _ => Leaves.passes

/-! ## Rounds of unification -/

/-- A way to unify terms that is detached and leaves related contexts. -/
def Unifies (R : Context → Context → Prop)
    (unify : Context → Term → Term → Engine (Option Context)) : Prop :=
  ∀ ctx a b, Detached (unify ctx a b) (Leaves R ctx)

variable {unify outer : Context → Term → Term → Engine (Option Context)}

theorem bindVar_leaves {v : Var} {t : Term}
    (binds : Detached (bindBy unify ctx v t) (Leaves R ctx)) :
    Detached ((store unify).bindVar ctx v t) (Leaves R ctx) := by
  cases t with
  | var w => exact binds
  | atom a => exact binds
  | compound f args =>
      have forbids : Detached ((store unify).forbids ctx v (.compound f args)) fun _ => True := by
        unfold store
        dsimp only
        split
        · exact .ofBounded fun _ _ => trivial
        · exact .pure trivial
      apply forbids.bind
      intro inside _
      split
      · exact .pure leaves_none
      · exact binds

section Rounds

variable [Std.Refl R] [IsTrans Context R]

theorem unifyPairs_leaves (unifies : Unifies R unify) : ∀ (as bs : List Term) (ctx : Context),
    Detached (Bindings.unifyPairs unify ctx as bs) (Leaves R ctx)
  | a :: as, b :: bs, ctx => by
      rw [Bindings.unifyPairs]
      apply (unifies ctx a b).bind
      intro result leaves
      cases result with
      | none => exact .pure leaves_none
      | some next =>
          exact (unifyPairs_leaves unifies as bs next).mono fun _ =>
            .of_related (leaves next rfl)
  | [], _, ctx => .pure (leaves_some (Std.Refl.refl ctx))
  | _ :: _, [], ctx => .pure (leaves_some (Std.Refl.refl ctx))

/-- A round binds only variables that some term walks to. -/
theorem unifyRound_leaves (unifies : Unifies R unify)
    (binds : ∀ ctx v t, (∃ u, ctx.walk u = .var v) →
      Detached (bindBy outer ctx v t) (Leaves R ctx)) :
    Unifies R ((store outer).unifyRound unify) := by
  intro ctx a b
  have walks : ∀ t, (store outer).walk ctx t = ctx.walk t := fun _ => rfl
  rw [Bindings.unifyRound]
  simp only [walks]
  split
  · exact .pure (leaves_some (Std.Refl.refl ctx))
  · split
    · exact .pure (leaves_some (Std.Refl.refl ctx))
    · exact .pure (leaves_some (Std.Refl.refl ctx))
    · rename_i left _
      exact bindVar_leaves (binds ctx _ _ ⟨a, left⟩)
    · rename_i right _ _
      exact bindVar_leaves (binds ctx _ _ ⟨b, right⟩)
    · split
      · exact unifyPairs_leaves unifies _ _ ctx
      · exact .pure leaves_none
    · exact .pure leaves_none

end Rounds

/-! ## Unification -/

theorem condense_keeps (value : Term) (chain : List Var) :
    Detached (ctx.condense value chain) ctx.SameFixed := by
  apply (set_keeps not_isFixed_substitutions).bind
  intro bound same
  apply (bump_keeps not_isFixed_counters _).bind
  intro counted later
  apply (fire_detached _ _).bind
  exact fun _ _ => .pure (same.trans later)

theorem runWalkHooks_keeps (value : Term) (chain : List Var) (hooks : List WalkHook) :
    Detached (ctx.runWalkHooks value chain hooks) ctx.SameFixed := by
  induction hooks generalizing ctx with
  | nil => exact .pure (.refl ctx)
  | cons hook hooks ih =>
      rw [runWalkHooks]
      split
      · apply (condense_keeps value chain).bind
        exact fun condensed same => ih.mono fun last later => same.trans later
      · exact ih

theorem walkCondensed_keeps (t : Term) :
    Detached (ctx.walkCondensed t) fun result => ctx.SameFixed result.1 := by
  rw [walkCondensed]
  split
  · exact .pure (.refl ctx)
  · dsimp only
    split
    · exact .pure (.refl ctx)
    · apply (runWalkHooks_keeps _ _ _).bind
      exact fun condensed same => .pure same

theorem condenseThen_keeps (unifies : Unifies SameFixed unify) :
    Unifies SameFixed (condenseThen unify) := by
  intro ctx a b
  apply (walkCondensed_keeps a).bind
  intro first same
  apply (walkCondensed_keeps b).bind
  intro second sameSecond
  exact (unifies _ _ _).mono fun _ => .of_related (same.trans sameSecond)

theorem runAction_keeps (unifies : Unifies SameFixed unify) (action : BindAction) :
    Detached (ctx.runAction unify action) (Leaves SameFixed ctx) := by
  have custom : ∀ {facet : CustomFacet} {value : Int},
      Detached (some <$> ofCollision (ctx.trySet (.custom facet) value))
        (Leaves SameFixed ctx) :=
    (Detached.ofCollision fun _ => keeps_of_trySet (not_isFixed_custom _)).map fun _ => leaves_some
  cases action with
  | reject => exact .pure leaves_none
  | bump name => exact (bump_keeps not_isFixed_counters name).map fun _ => leaves_some
  | setFacet facet value => exact custom
  | addToFacet facet amount => exact custom
  | unify a b => exact unifies ctx a b
  | constrain c => exact constrain_keeps not_isFixed_constraints c

theorem runBindHooks_keeps (unifies : Unifies SameFixed unify) (v : Var) (t : Term)
    (hooks : List BindHook) :
    Detached (runBindHooks unify v t ctx hooks) (Leaves SameFixed ctx) := by
  induction hooks generalizing ctx with
  | nil => exact .pure (leaves_some (.refl ctx))
  | cons hook hooks ih =>
      rw [runBindHooks]
      split
      · apply (runAction_keeps unifies _).bind
        intro result leaves
        cases result with
        | none => exact .pure leaves_none
        | some next => exact ih.mono fun _ => .of_related (leaves next rfl)
      · exact ih

/-- The binding is recorded and counted once; besides, only constraints are written. -/
structure Bound (v : Var) (t : Term) (ctx next : Context) : Prop where
  inserted : next.substitution = ctx.substitution.insert v t
  aside : Keeps IsAside ctx next
  counted : next.bindingsMade = ctx.bindingsMade + 1

/-- A binding is rejected, or it is recorded and the bind hooks run. -/
theorem bindBy_of_bound {v : Var} {t : Term} {condition : Option Context → Prop}
    (rejected : condition none)
    (bound : ∀ next, Bound v t ctx next → Detached
      (match next.hooks? with
        | none => pure (some next)
        | some registry => runBindHooks unify v t next registry.bindHooks) condition) :
    Detached (bindBy unify ctx v t) condition := by
  rw [bindBy]
  split
  · exact .pure rejected
  · rename_i s extended
    have inserted : s = ctx.substitution.insert v t := by
      unfold Substitution.extend at extended
      split at extended
      · cases extended
      · exact (Option.some.inj extended).symm
    have stored : ∀ next, ctx.trySet .substitutions s = .ok next →
        next.get? .substitutions = some s ∧ Keeps IsAside ctx next ∧
          next.get? .counters = ctx.get? .counters := fun next success =>
      ⟨get?_of_trySet success, keeps_of_trySet id success, get?_of_trySet_of_ne success (by simp)⟩
    apply (Detached.ofCollision stored).bind
    rintro written ⟨holds, asideWritten, countWritten⟩
    have counts : Detached (written.bump "bindings") fun next =>
        Keeps (· ≠ .counters) written next ∧
          next.counter "bindings" = written.counter "bindings" + 1 :=
      (bump_keeps (by simp) _).and (bump_counts _)
    apply counts.bind
    rintro counted ⟨sameCounted, countCounted⟩
    apply (fire_detached _ _).bind
    intro _ _
    have propagates :
        Detached (counted.propagate v t) (Leaves (Keeps (· ≠ .constraints)) counted) :=
      propagate_keeps (by simp) v t
    apply propagates.bind
    intro result leaves
    cases result with
    | none => exact .pure rejected
    | some settled =>
        have same := leaves settled rfl
        apply bound settled
        constructor
        · rw [substitution, get, same .substitutions (by simp),
            sameCounted .substitutions (by simp), holds, inserted]
          rfl
        · intro key isAside
          rw [same key (by rintro rfl; exact isAside),
            sameCounted key (by rintro rfl; exact isAside), asideWritten key isAside]
        · rw [bindingsMade, counter, get, same .counters (by simp)]
          refine countCounted.trans (congrArg (· + 1) ?_)
          rw [counter, get, countWritten]
          rfl

theorem bindBy_keeps (unifies : Unifies SameFixed unify) (v : Var) (t : Term) :
    Detached (bindBy unify ctx v t) (Leaves SameFixed ctx) := by
  apply bindBy_of_bound leaves_none
  intro next bound
  have sofar : ctx.SameFixed next := bound.aside.mono fun _ => IsFixed.isAside
  split
  · exact .pure (leaves_some sofar)
  · exact (runBindHooks_keeps unifies v t _).mono fun _ => .of_related sofar

theorem unifyWithin_keeps (depth : Nat) : Unifies SameFixed (unifyWithin depth) := by
  induction depth with
  | zero => exact fun ctx a b => .throw _
  | succ depth ih =>
      exact unifyRound_leaves ih
        fun ctx v t _ => bindBy_keeps (condenseThen_keeps ih) v t

theorem unifyAll_keeps (ctx : Context) (as bs : List Term) :
    Detached (ctx.unifyAll as bs) (Leaves SameFixed ctx) := by
  rw [unifyAll, unifyOver_eq, Bindings.unifyLists]
  split
  · exact unifyPairs_leaves (unifyWithin_keeps _) as bs ctx
  · exact .pure leaves_none

theorem unify_keeps (ctx : Context) (a b : Term) :
    Detached (ctx.unify a b) (Leaves SameFixed ctx) := by
  rw [Context.unify, unifyOver_eq]
  exact condenseThen_keeps (unifyWithin_keeps _) ctx a b

theorem unify_detached (ctx : Context) (a b : Term) : Detached (ctx.unify a b) ctx.Passes :=
  (unify_keeps ctx a b).mono fun _ => Leaves.passes

theorem unifyAll_detached (ctx : Context) (as bs : List Term) :
    Detached (ctx.unifyAll as bs) ctx.Passes :=
  (unifyAll_keeps ctx as bs).mono fun _ => Leaves.passes

end Context

end RelationalSolver
