import RelationalSolver.Proofs.Substitution.Solutions
import RelationalSolver.Unification

/-!
# Unification without the occurrence test

Without the test, unification may tie a variable to a term that holds it.  An
assignment that makes the bindings hold and the terms equal rules this out.  So if
such an assignment is there, unification does not fail.
-/

namespace RelationalSolver.Substitution

variable {s next : Substitution} {v : Var} {a b t : Term} {as bs : List Term} {θ : Assignment}

/-- The attempt succeeds if it ends, and the assignment makes the new bindings hold. -/
def Retains (θ : Assignment) (attempt : Except Unending (Option Substitution)) : Prop :=
  ∀ result, attempt = .ok result →
    ∃ next, result = some next ∧ next.Acyclic ∧ θ ∈ next.solutions

theorem Retains.same (acyclic : s.Acyclic) (solves : θ ∈ s.solutions) :
    Retains θ (.ok (some s)) := by
  intro result same
  cases same
  exact ⟨s, rfl, acyclic, solves⟩

/-- A term that can be equal to an unbound variable does not hold it. -/
theorem not_reaches_of_equal (acyclic : s.Acyclic) (solves : θ ∈ s.solutions)
    (unbound : s.lookup v = none) (walked : s.Walked t) (different : t ≠ .var v)
    (equal : θ v = t.mapVars θ) : ¬ s.Reaches t v := by
  intro reaches
  cases t with
  | var w =>
      rcases reaches with ⟨u, inside, path⟩
      cases Term.mentions_var.mp inside
      rcases Relation.ReflTransGen.cases_head path with rfl | ⟨_, ⟨_, bound, _⟩, _⟩
      · exact different rfl
      · rw [walked _ rfl] at bound
        cases bound
  | atom a =>
      rcases reaches with ⟨_, inside, _⟩
      cases inside
  | compound f args =>
      have inside := (mentions_resolve acyclic).mpr ⟨reaches, unbound⟩
      have both : θ ∈ s.solutions ∩ unifiers (.var v) (.compound f args) := ⟨solves, equal⟩
      rw [disjoint_unifiers_of_mentions acyclic inside] at both
      exact both

/-- Without the test every walked term is bound. -/
theorem bindVar_unchecked (named : v ≠ .wildcard) (walked : s.Walked t) (different : t ≠ .var v) :
    (store .disabled).bindVar s v t = .ok (some (s.insert v t)) := by
  cases t <;> exact congrArg Except.ok (extend_of_walked named walked different)

theorem bindVar_retains (acyclic : s.Acyclic) (solves : θ ∈ s.solutions) (named : v ≠ .wildcard)
    (unbound : s.lookup v = none) (walked : s.Walked t) (different : t ≠ .var v)
    (equal : θ v = t.mapVars θ) : Retains θ ((store .disabled).bindVar s v t) := by
  rw [bindVar_unchecked named walked different]
  apply Retains.same (acyclic_insert acyclic _)
  · rw [solutions_insert unbound]
    exact ⟨solves, equal⟩
  · exact not_reaches_of_equal acyclic solves unbound walked different equal

section Rounds

variable {unify : Substitution → Term → Term → Except Unending (Option Substitution)}

theorem unifyPairs_retains
    (retains : ∀ s a b, s.Acyclic → θ ∈ s.solutions → a.mapVars θ = b.mapVars θ →
      Retains θ (unify s a b)) :
    ∀ (as bs : List Term) (s : Substitution), s.Acyclic → θ ∈ s.solutions →
      as.map (·.mapVars θ) = bs.map (·.mapVars θ) →
      Retains θ (Bindings.unifyPairs unify s as bs)
  | [], _, s, acyclic, solves, _ => .same acyclic solves
  | _ :: _, [], s, acyclic, solves, _ => .same acyclic solves
  | a :: as, b :: bs, s, acyclic, solves, equal => by
      simp only [List.map_cons, List.cons.injEq] at equal
      intro result ended
      rw [Bindings.unifyPairs] at ended
      cases first : unify s a b with
      | error e =>
          rw [first] at ended
          cases ended
      | ok found =>
          rcases retains s a b acyclic solves equal.1 found first with
            ⟨next, rfl, acyclicNext, solvesNext⟩
          rw [first] at ended
          exact unifyPairs_retains retains as bs next acyclicNext solvesNext equal.2 result ended

theorem unifyRound_retains
    (retains : ∀ s a b, s.Acyclic → θ ∈ s.solutions → a.mapVars θ = b.mapVars θ →
      Retains θ (unify s a b))
    (acyclic : s.Acyclic) (solves : θ ∈ s.solutions) (equal : a.mapVars θ = b.mapVars θ) :
    Retains θ ((store .disabled).unifyRound unify s a b) := by
  have walkedLeft := walked_walk acyclic a
  have walkedRight := walked_walk acyclic b
  rw [← mapVars_walk solves a, ← mapVars_walk solves b] at equal
  unfold Bindings.unifyRound
  have walks : ∀ t, (store .disabled).walk s t = s.walk t := fun _ => rfl
  simp only [walks]
  generalize s.walk a = left at *
  generalize s.walk b = right at *
  split
  · exact .same acyclic solves
  · rename_i different
    split
    · exact .same acyclic solves
    · exact .same acyclic solves
    · rename_i v named _
      exact bindVar_retains acyclic solves named (walkedLeft v rfl) walkedRight
        (Ne.symm different) equal
    · rename_i v named _ _
      exact bindVar_retains acyclic solves named (walkedRight v rfl) walkedLeft different
        equal.symm
    · rename_i f as g bs
      rw [Term.mapVars_compound, Term.mapVars_compound] at equal
      injection equal with sameFunctor sameArgs
      have lengths : as.length = bs.length := by simpa using congrArg List.length sameArgs
      rw [if_pos ⟨lengths, sameFunctor⟩]
      exact unifyPairs_retains retains as bs s acyclic solves sameArgs
    · rename_i _ notVar _ notVarRight notCompounds
      exfalso
      cases left with
      | var v => exact notVar v rfl
      | atom x =>
          cases right with
          | var v => exact notVarRight v rfl
          | atom y => exact different equal
          | compound g bs => exact Term.noConfusion (equal.trans (Term.mapVars_compound ..))
      | compound f as =>
          cases right with
          | var v => exact notVarRight v rfl
          | atom y => exact Term.noConfusion ((Term.mapVars_compound ..).symm.trans equal)
          | compound g bs => exact notCompounds f as g bs rfl rfl

end Rounds

theorem unifyWithin_retains (depth : Nat) (s : Substitution) (a b : Term) (acyclic : s.Acyclic)
    (solves : θ ∈ s.solutions) (equal : a.mapVars θ = b.mapVars θ) :
    Retains θ (unifyWithin .disabled depth s a b) := by
  induction depth generalizing s a b with
  | zero =>
      intro result ended
      cases ended
  | succ depth ih => exact unifyRound_retains ih acyclic solves equal

/-- Unification fails only for terms that no solution makes equal. -/
theorem ne_of_unify_eq_none (acyclic : s.Acyclic) (failed : s.unify .disabled a b = .ok none)
    (solves : θ ∈ s.solutions) : a.mapVars θ ≠ b.mapVars θ := by
  intro equal
  rw [unify_eq] at failed
  rcases unifyWithin_retains _ s a b acyclic solves equal none failed with ⟨next, impossible, _⟩
  cases impossible

end RelationalSolver.Substitution
