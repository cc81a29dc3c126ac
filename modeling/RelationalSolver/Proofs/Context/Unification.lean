import RelationalSolver.Proofs.Context.Propagation
import RelationalSolver.Proofs.Unification.MostGeneral

/-!
# Unification in quiet contexts

A quiet context is a lawful store of bindings.  Unifying in it restricts the
solutions to those that make the terms equal, and fails only if nothing within
them is spared by the bindings and the pending constraints.
-/

namespace RelationalSolver.Context

open Substitution Constraint ConstraintStore

variable {Member : Constraint → Prop} {endless : Prop} {ctx : Context} {a b : Term}

theorem lawful_store (family : Family Member endless)
    (unify : Context → Term → Term → Engine (Option Context)) :
    (store unify).Lawful (reading Member) endless where
  acyclic valid := valid.acyclic
  nonempty spared := spared.1
  solves spared := spared.2.1
  walk _ _ := rfl
  forbids {ctx} valid v t := by
    simp only [store, valid.quiet.checked, occurs_eq_mentions valid.acyclic]
    rfl
  bind {ctx v t} valid unbound named different free walked apart := by
    change ctx.substitution.lookup v = none at unbound
    apply (bindBy_settles family unify valid unbound named different free walked apart).mono
    intro result settled
    have solved := solutions_insert (t := t) unbound
    cases result with
    | none =>
        intro Θ within spared
        apply settled Θ _ spared.1 spared.2.2
        rw [solved]
        exact Set.subset_inter spared.2.1 within
    | some next =>
        rcases settled with ⟨orderly, same, carries⟩
        refine ⟨orderly, same, ?_, ?_⟩
        · intro Θ within spared
          have inside : Θ ⊆ (ctx.substitution.insert v t).solutions := by
            rw [solved]
            exact Set.subset_inter spared.2.1 within
          exact ⟨spared.1, same ▸ inside, carries.spares Θ inside spared.2.2⟩
        · intro Θ admitted
          have inside : Θ ⊆ (ctx.substitution.insert v t).solutions := same ▸ admitted.2.1
          refine ⟨admitted.1, ?_, carries.admits Θ inside admitted.1 admitted.2.2⟩
          exact inside.trans (solutions_subset_of_extends (extends_insert t unbound))

theorem unifyWithin_succ (depth : Nat) :
    unifyWithin (depth + 1) =
      (store (condenseThen (unifyWithin depth))).unifyRound (unifyWithin depth) := rfl

/-- What restricting the solutions of a context to a set ends in. -/
def Restricted (Member : Constraint → Prop) (ctx : Context) (new : Set Assignment) :
    Option Context → Prop
  | some next =>
      Orderly Member next ∧
      next.substitution.solutions = ctx.substitution.solutions ∩ new ∧
      (∀ Θ ⊆ new, (reading Member).Spares ctx Θ → (reading Member).Spares next Θ) ∧
      (∀ Θ, (reading Member).Admits next Θ → (reading Member).Admits ctx Θ)
  | none => ∀ Θ ⊆ new, ¬ (reading Member).Spares ctx Θ

theorem restricted_of_outcome {nodes : Finset Term} {new : Set Assignment}
    {result : Option Context} (outcome : Bindings.Outcome (reading Member) nodes ctx new result) :
    Restricted Member ctx new result := by
  cases result with
  | none => exact outcome
  | some next =>
      rcases outcome with ⟨orderly, _, _, solved, spares, admits⟩
      exact ⟨orderly, solved, spares, admits⟩

theorem Quiet.nodes_eq (quiet : ctx.Quiet) : ctx.nodes = ctx.substitution.nodes := by
  rw [nodes, quiet.unhooked]
  rfl

/-- Unification restricts the solutions to the unifiers of the terms. -/
theorem unify_settles (family : Family Member endless) (orderly : Orderly Member ctx)
    (left : a.WildcardFree) (right : b.WildcardFree) :
    Settles endless (ctx.unify a b) (Restricted Member ctx (unifiers a b)) := by
  have free : ∀ t ∈ [a, b], t.WildcardFree := by simp [left, right]
  have stays := ctx.substitution.staysIn_sight [a, b]
  have small := ctx.substitution.card_sight_le [a, b]
  have enough := lt_rounds (ctx.substitution.nodes + (a.size + b.size))
  simp only [Term.sizes] at small
  rw [unify, orderly.quiet.condenseThen_eq, unifyOver_eq, orderly.quiet.nodes_eq]
  apply (Bindings.unify_outcome
    (fun depth => lawful_store family (condenseThen (unifyWithin depth))) unifyWithin_succ
    (plain_sight orderly.plain free) orderly stays
    (walk_mem_nodes stays (mem_sight (by simp)))
    (walk_mem_nodes stays (mem_sight (by simp))) (by omega)).mono
  intro result outcome
  apply restricted_of_outcome
  exact (lawful_store family (unifyWithin 0)).outcome_congr
    (Bindings.unifiers_inter_walk a b) outcome

/-- Unification of lists restricts the solutions to the unifiers of all pairs. -/
theorem unifyAll_settles (family : Family Member endless) (orderly : Orderly Member ctx)
    {as bs : List Term} (left : ∀ a ∈ as, a.WildcardFree) (right : ∀ b ∈ bs, b.WildcardFree) :
    Settles endless (ctx.unifyAll as bs) (Restricted Member ctx (pairUnifiers as bs)) := by
  have free : ∀ t ∈ as ++ bs, t.WildcardFree := by
    intro t member
    rcases List.mem_append.mp member with inLeft | inRight
    · exact left t inLeft
    · exact right t inRight
  have small := ctx.substitution.card_sight_le (as ++ bs)
  have enough := lt_rounds (ctx.substitution.nodes + (Term.sizes as + Term.sizes bs))
  rw [Term.sizes_append] at small
  rw [unifyAll, unifyOver_eq, orderly.quiet.nodes_eq]
  apply (Bindings.unifyLists_outcome
    (fun depth => lawful_store family (condenseThen (unifyWithin depth))) unifyWithin_succ
    (plain_sight orderly.plain free) orderly (staysIn_sight _ _)
    (fun a member => mem_sight (List.mem_append_left bs member))
    (fun b member => mem_sight (List.mem_append_right as member)) (by omega)).mono
  exact fun result => restricted_of_outcome

end RelationalSolver.Context
