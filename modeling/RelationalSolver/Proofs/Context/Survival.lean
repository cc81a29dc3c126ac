import RelationalSolver.Proofs.Constraint.Verdicts
import RelationalSolver.Proofs.Context.Unification
import RelationalSolver.Proofs.Goal.Leaves
import RelationalSolver.Proofs.Session.Engine

/-!
# What a context leaves of the ways through goals

A way through goals survives in a context if the bindings, the pending constraints and
its own constraints leave something to it.  A context honours it if no guard would cut
it off although it survives.  Adding what the way asks for first changes neither.
-/

namespace RelationalSolver.Context

open Constraint Engine

variable {ctx next : Context} {ℓ m : Leaf} {result : Option Context} {c : Constraint}

/-- The assignments that the bindings and the way through goals have in common. -/
def left (ctx : Context) (ℓ : Leaf) : Set Assignment := ctx.substitution.solutions ∩ ℓ.solutions

/-- Something is left, and the constraints permit it. -/
def Survives (ctx : Context) (ℓ : Leaf) : Prop :=
  (reading Guarded).Admits ctx (ctx.left ℓ) ∧ ctx.left ℓ ∈ ℓ.permitted

/-- If something is left, the guards permit it too. -/
def Honours (ctx : Context) (ℓ : Leaf) : Prop :=
  ctx.Survives ℓ → (reading Guarded).Spares ctx (ctx.left ℓ) ∧ ctx.left ℓ ∈ ℓ.promised

open Classical in
/-- What is left, if the way through goals survives. -/
noncomputable def remains (ctx : Context) (ℓ : Leaf) : Multiset (Set Assignment) :=
  if ctx.Survives ℓ then {ctx.left ℓ} else 0

theorem remains_of_survives (survives : ctx.Survives ℓ) : ctx.remains ℓ = {ctx.left ℓ} :=
  if_pos survives

theorem remains_of_not_survives (fails : ¬ ctx.Survives ℓ) : ctx.remains ℓ = 0 := if_neg fails

theorem remains_congr (same : next.left m = ctx.left ℓ)
    (survives : next.Survives m ↔ ctx.Survives ℓ) : next.remains m = ctx.remains ℓ := by
  by_cases there : ctx.Survives ℓ
  · rw [remains_of_survives there, remains_of_survives (survives.mpr there), same]
  · rw [remains_of_not_survives there, remains_of_not_survives (mt survives.mp there)]

/-- Spared sets are left open. -/
theorem admits_of_spares {Θ : Set Assignment} (spared : (reading Guarded).Spares ctx Θ) :
    (reading Guarded).Admits ctx Θ := ⟨spared.1, spared.2.1, spared.2.2.admits⟩

/-- An orderly context with nothing more to do survives. -/
theorem Orderly.remains_all (orderly : ctx.Orderly Guarded) :
    ctx.remains .all = {ctx.substitution.solutions} := by
  have same : ctx.left .all = ctx.substitution.solutions := Set.inter_univ _
  rw [remains_of_survives, same]
  exact ⟨same.symm ▸ orderly.admits, trivial⟩

/-! ## Asking for something -/

/-- What asking a context for something comes to: what remains of ways that begin with
it remains. -/
def Asked (ctx : Context) (m : Leaf) : Option Context → Prop
  | some next => next.Orderly Guarded ∧ ∀ ℓ, ctx.Honours (m.and ℓ) →
      next.Honours ℓ ∧ next.remains ℓ = ctx.remains (m.and ℓ)
  | none => ∀ ℓ, ctx.Honours (m.and ℓ) → ctx.remains (m.and ℓ) = 0

theorem asked_all (orderly : ctx.Orderly Guarded) : ctx.Asked .all (some ctx) := by
  refine ⟨orderly, ?_⟩
  intro ℓ honours
  rw [Leaf.all_and] at honours ⊢
  exact ⟨honours, rfl⟩

theorem Asked.trans (first : ctx.Asked m (some next)) {k : Leaf}
    (second : next.Asked k result) : ctx.Asked (m.and k) result := by
  cases result with
  | none =>
      intro ℓ honours
      rw [Leaf.and_assoc] at honours ⊢
      rcases first.2 (k.and ℓ) honours with ⟨honoursNext, same⟩
      rw [← same]
      exact second ℓ honoursNext
  | some last =>
      refine ⟨second.1, ?_⟩
      intro ℓ honours
      rw [Leaf.and_assoc] at honours ⊢
      rcases first.2 (k.and ℓ) honours with ⟨honoursNext, same⟩
      rcases second.2 ℓ honoursNext with ⟨honoursLast, sameLast⟩
      exact ⟨honoursLast, sameLast.trans same⟩

theorem Asked.none_and (failed : ctx.Asked m none) (k : Leaf) : ctx.Asked (m.and k) none := by
  intro ℓ honours
  rw [Leaf.and_assoc] at honours ⊢
  exact failed (k.and ℓ) honours

/-- A step that keeps what is spared and adds nothing that is left open, for the ways
that begin with what is asked for. -/
theorem asked_of_steps (orderly : next.Orderly Guarded)
    (same : ∀ ℓ, next.left ℓ = ctx.left (m.and ℓ))
    (spares : ∀ ℓ, (reading Guarded).Spares ctx (ctx.left (m.and ℓ)) →
      ctx.left (m.and ℓ) ∈ m.permitted → ctx.left (m.and ℓ) ∈ m.promised →
      (reading Guarded).Spares next (ctx.left (m.and ℓ)))
    (admits : ∀ Θ, (reading Guarded).Admits next Θ →
      (reading Guarded).Admits ctx Θ ∧ Θ ∈ m.permitted) : ctx.Asked m (some next) := by
  refine ⟨orderly, ?_⟩
  intro ℓ honours
  have back : next.Survives ℓ → ctx.Survives (m.and ℓ) := by
    intro survives
    rw [Survives, same] at survives
    rcases admits _ survives.1 with ⟨before, permitted⟩
    exact ⟨before, permitted, survives.2⟩
  have kept : ctx.Survives (m.and ℓ) → (reading Guarded).Spares next (ctx.left (m.and ℓ)) := by
    intro survives
    rcases honours survives with ⟨spared, promised⟩
    exact spares ℓ spared survives.2.1 promised.1
  constructor
  · intro survives
    have before := back survives
    rw [same]
    exact ⟨kept before, (honours before).2.2⟩
  · apply remains_congr (same ℓ)
    constructor
    · exact back
    · intro survives
      rw [Survives, same]
      exact ⟨admits_of_spares (kept survives), survives.2.2⟩

theorem asked_of_failure (fails : ∀ ℓ, (reading Guarded).Spares ctx (ctx.left (m.and ℓ)) →
      ctx.left (m.and ℓ) ∈ m.permitted → ctx.left (m.and ℓ) ∈ m.promised → False) :
    ctx.Asked m none := by
  intro ℓ honours
  apply remains_of_not_survives
  intro survives
  rcases honours survives with ⟨spared, promised⟩
  exact fails ℓ spared survives.2.1 promised.1

/-! ## The answers of several ways -/

/-- What remains of several ways through goals. -/
noncomputable def answers (ctx : Context) (ways : Multiset Leaf) : Multiset (Set Assignment) :=
  ways.bind ctx.remains

variable {ways more : Multiset Leaf}

@[simp] theorem answers_zero : ctx.answers 0 = 0 := Multiset.zero_bind _

@[simp] theorem answers_add (ways more : Multiset Leaf) :
    ctx.answers (ways + more) = ctx.answers ways + ctx.answers more := Multiset.add_bind ..

theorem answers_le (fewer : ways ≤ more) : ctx.answers ways ≤ ctx.answers more := by
  rcases Multiset.le_iff_exists_add.mp fewer with ⟨others, rfl⟩
  rw [answers_add]
  exact Multiset.le_add_right _ _

theorem answers_eq_zero (fails : ∀ ℓ ∈ ways, ¬ ctx.Survives ℓ) : ctx.answers ways = 0 := by
  rw [answers, Multiset.bind_congr fun ℓ member => remains_of_not_survives (fails ℓ member)]
  exact Multiset.bind_zero ways

theorem answers_map {f : Leaf → Leaf}
    (same : ∀ ℓ ∈ ways, next.remains ℓ = ctx.remains (f ℓ)) :
    next.answers ways = ctx.answers (ways.map f) := by
  rw [answers, answers, Multiset.bind_map]
  exact Multiset.bind_congr same

theorem Asked.answers_eq (asked : ctx.Asked m (some next))
    (honours : ∀ ℓ ∈ ways.map m.and, ctx.Honours ℓ) :
    (∀ ℓ ∈ ways, next.Honours ℓ) ∧ next.answers ways = ctx.answers (ways.map m.and) := by
  have each : ∀ ℓ ∈ ways, next.Honours ℓ ∧ next.remains ℓ = ctx.remains (m.and ℓ) :=
    fun ℓ member => asked.2 ℓ (honours _ (Multiset.mem_map_of_mem _ member))
  exact ⟨fun ℓ member => (each ℓ member).1, answers_map fun ℓ member => (each ℓ member).2⟩

theorem Asked.answers_eq_zero (asked : ctx.Asked m none)
    (honours : ∀ ℓ ∈ ways.map m.and, ctx.Honours ℓ) : ctx.answers (ways.map m.and) = 0 := by
  rw [answers, Multiset.bind_map]
  have none : ∀ ℓ ∈ ways, ctx.remains (m.and ℓ) = 0 :=
    fun ℓ member => asked ℓ (honours _ (Multiset.mem_map_of_mem _ member))
  rw [Multiset.bind_congr none]
  exact Multiset.bind_zero ways

/-! ## Equations and constraints -/

theorem asked_of_restricted {new : Set Assignment}
    (restricted : Restricted Guarded ctx new result) :
    ctx.Asked (.ofSolutions new) result := by
  have within : ∀ ℓ, ctx.left ((Leaf.ofSolutions new).and ℓ) ⊆ new :=
    fun ℓ θ member => member.2.1
  cases result with
  | none => exact asked_of_failure fun ℓ spared _ _ => restricted _ (within ℓ) spared
  | some next =>
      rcases restricted with ⟨orderly, solved, spares, admits⟩
      apply asked_of_steps orderly
      · intro ℓ
        rw [left, solved, Set.inter_assoc]
        rfl
      · exact fun ℓ spared _ _ => spares _ (within ℓ) spared
      · exact fun Θ admitted => ⟨admits Θ admitted, trivial⟩

theorem asked_of_constrained (constrained : Constrained Guarded ctx c result) :
    ctx.Asked (.ofConstraint c) result := by
  have permits : ∀ Θ : Set Assignment, Θ ∈ (Leaf.ofConstraint c).permitted →
      Θ ∈ (Leaf.ofConstraint c).promised → c.Permits Θ := by
    intro Θ permitted promised
    cases kind : c.isGuard with
    | false => exact permitted kind
    | true => exact promised kind
  cases result with
  | none =>
      exact asked_of_failure fun ℓ spared permitted promised =>
        constrained _ spared (permits _ permitted promised)
  | some next =>
      rcases constrained with ⟨orderly, same, spares, admits⟩
      apply asked_of_steps orderly
      · intro ℓ
        rw [left, left, same, Leaf.and, Leaf.ofConstraint, Set.univ_inter]
      · exact fun ℓ spared permitted promised => spares _ spared (permits _ permitted promised)
      · exact admits

end RelationalSolver.Context

namespace RelationalSolver

open Engine Constraint

/-- What a computation settles on is true of its result. -/
theorem Settles.of_returns {α : Type} {endless : Prop} {x : Engine α} {condition : α → Prop}
    (settles : Settles endless x condition) {a : α} (returned : Returns x a) : condition a := by
  rcases returned with ⟨before, after, ran⟩
  rcases settles with ⟨b, holds, rfl⟩ | ⟨_, rfl⟩
  · rw [runs_pure] at ran
    exact ran.1 ▸ holds
  · exact absurd ran not_runs_throw

namespace Context

variable {ctx : Context} {result : Option Context}

theorem Orderly.unify_asked (orderly : ctx.Orderly Guarded) {a b : Term} (left : a.WildcardFree)
    (right : b.WildcardFree) (returned : Returns (ctx.unify a b) result) :
    ctx.Asked (.ofSolutions (unifiers a b)) result :=
  asked_of_restricted
    ((unify_settles family_guarded orderly left right).of_returns returned)

theorem Orderly.unifyAll_asked (orderly : ctx.Orderly Guarded) {as bs : List Term}
    (left : ∀ a ∈ as, a.WildcardFree) (right : ∀ b ∈ bs, b.WildcardFree)
    (returned : Returns (ctx.unifyAll as bs) result) :
    ctx.Asked (.ofSolutions (pairUnifiers as bs)) result :=
  asked_of_restricted
    ((unifyAll_settles family_guarded orderly left right).of_returns returned)

theorem Orderly.constrain_asked (orderly : ctx.Orderly Guarded) {c : Constraint}
    (guarded : c.Guarded) (returned : Returns (ctx.constrain c) result) :
    ctx.Asked (.ofConstraint c) result :=
  asked_of_constrained
    ((constrain_settles family_guarded orderly guarded).of_returns returned)

theorem Orderly.constrainAll_asked (orderly : ctx.Orderly Guarded) {constraints : List Constraint}
    (guarded : ∀ c ∈ constraints, c.Guarded)
    (returned : Returns (ctx.constrainAll constraints) result) :
    ctx.Asked (.ofConstraints constraints) result := by
  induction constraints generalizing ctx with
  | nil =>
      rcases returned with ⟨before, after, ran⟩
      rw [← (runs_pure.mp ran).1]
      exact asked_all orderly
  | cons c constraints ih =>
      rcases List.forall_mem_cons.mp guarded with ⟨here, there⟩
      rcases returned with ⟨before, after, ran⟩
      rcases runs_bind.mp ran with ⟨found, between, first, rest⟩
      have asked := orderly.constrain_asked here first.returns
      cases found with
      | none =>
          rw [← (runs_pure.mp rest).1]
          exact asked.none_and _
      | some next => exact asked.trans (ih asked.1 there rest.returns)

end Context

end RelationalSolver
