import RelationalSolver.Constraint.Evaluation
import RelationalSolver.Proofs.Substitution.Renumbering
import RelationalSolver.Proofs.Unification.Coupling

/-!
# Unification under other numbers

Two attempts run side by side, one of them on the terms under other numbers.  Over stores
that walk alike they take the same turns and bind the same variables.
-/

namespace RelationalSolver

namespace Coupling

variable {m : Type → Type} [Monad m] (c : Coupling m) {ρ : ℕ ↪o ℕ} {σ τ : Type}
variable {R : σ → τ → Prop} {unify : σ → Term → Term → m (Option σ)}
variable {unifyOther : τ → Term → Term → m (Option τ)} {s : σ} {other : τ}

section Pairs

variable (below : ∀ s other a b, R s other →
  c.Related (Option.Rel R) (unify s a b) (unifyOther other (a.renumber ρ) (b.renumber ρ)))
include below

theorem unifyPairs_renumber (as bs : List Term) (related : R s other) :
    c.Related (Option.Rel R) (Bindings.unifyPairs unify s as bs)
      (Bindings.unifyPairs unifyOther other (as.map (·.renumber ρ)) (bs.map (·.renumber ρ))) := by
  induction as generalizing bs s other with
  | nil => exact c.pure (.some related)
  | cons a as ih =>
      cases bs with
      | nil => exact c.pure (.some related)
      | cons b bs =>
          rw [List.map_cons, List.map_cons, Bindings.unifyPairs, Bindings.unifyPairs]
          apply c.bind (below s other a b related)
          intro result resultOther holds
          cases holds with
          | none => exact c.pure .none
          | some next => exact ih bs next

theorem unifyLists_renumber (as bs : List Term) (related : R s other) :
    c.Related (Option.Rel R) (Bindings.unifyLists unify s as bs)
      (Bindings.unifyLists unifyOther other (as.map (·.renumber ρ)) (bs.map (·.renumber ρ))) := by
  unfold Bindings.unifyLists
  rw [List.length_map, List.length_map]
  split
  · exact c.unifyPairs_renumber below as bs related
  · exact c.pure .none

theorem unifyRound_renumber {ops : Bindings m σ} {opsOther : Bindings m τ}
    (walks : ∀ t, opsOther.walk other (t.renumber ρ) = (ops.walk s t).renumber ρ)
    (binds : ∀ v t, c.Related (Option.Rel R) (ops.bindVar s v t)
      (opsOther.bindVar other (v.renumber ρ) (t.renumber ρ)))
    (a b : Term) (related : R s other) :
    c.Related (Option.Rel R) (ops.unifyRound unify s a b)
      (opsOther.unifyRound unifyOther other (a.renumber ρ) (b.renumber ρ)) := by
  unfold Bindings.unifyRound
  simp only [walks, Term.renumber_inj]
  generalize ops.walk s a = left
  generalize ops.walk s b = right
  by_cases same : left = right
  · rw [if_pos same, if_pos same]
    exact c.pure (.some related)
  · rw [if_neg same, if_neg same]
    -- A renumbered term has the same top level, so both sides match in the same way.
    rcases left with (_ | n | x) | i | ⟨f, as⟩
    case neg.var.wildcard => exact c.pure (.some related)
    all_goals rcases right with (_ | m | y) | j | ⟨g, bs⟩
    case neg.compound.compound =>
      simp only [Term.renumber_compound, List.length_map]
      split
      · exact c.unifyPairs_renumber below as bs related
      · exact c.pure .none
    case neg.atom.atom => exact c.pure .none
    case neg.atom.compound => exact c.pure .none
    case neg.compound.atom => exact c.pure .none
    all_goals
      first
      | exact binds _ _
      | exact c.pure (.some related)

end Pairs

end Coupling

namespace Substitution.Renumbers

variable {ρ : ℕ ↪o ℕ} {s other : Substitution}

theorem bindVar (check : OccursCheck) (renumbers : s.Renumbers ρ other) (v : Var) (t : Term) :
    Coupling.alike.Related (Option.Rel (Renumbers ρ)) ((store check).bindVar s v t)
      ((store check).bindVar other (v.renumber ρ) (t.renumber ρ)) := by
  have binds := Coupling.alike.pure (renumbers.extend v t)
  cases t with
  | var w => exact binds
  | atom a => exact binds
  | compound f args =>
      have forbids : (store check).forbids other (v.renumber ρ)
            ((Term.compound f args).renumber ρ) =
          (store check).forbids s v (.compound f args) := by
        cases check with
        | disabled => rfl
        | enabled => exact renumbers.occurs v _
      rw [Term.renumber_compound] at binds forbids ⊢
      unfold Bindings.bindVar
      dsimp only
      rw [forbids]
      cases (store check).forbids s v (.compound f args) with
      | error e => exact .inr ⟨rfl, rfl⟩
      | ok inside =>
          cases inside with
          | true => exact Coupling.alike.pure .none
          | false => exact binds

theorem unifyBy (check : OccursCheck)
    {deeper deeperOther : Substitution → Term → Term → Except Unending (Option Substitution)}
    (below : ∀ s other a b, s.Renumbers ρ other → Coupling.alike.Related
      (Option.Rel (Renumbers ρ)) (deeper s a b) (deeperOther other (a.renumber ρ) (b.renumber ρ)))
    (depth : Nat) (a b : Term) (renumbers : s.Renumbers ρ other) :
    Coupling.alike.Related (Option.Rel (Renumbers ρ))
      (Substitution.unifyBy deeper check depth s a b)
      (Substitution.unifyBy deeperOther check depth other (a.renumber ρ) (b.renumber ρ)) := by
  induction depth generalizing s other a b with
  | zero => exact below s other a b renumbers
  | succ depth ih =>
      exact Coupling.alike.unifyRound_renumber (fun _ _ a b related => ih a b related)
        renumbers.walk (renumbers.bindVar check) a b renumbers

theorem unifyWithin (check : OccursCheck) (depth : Nat) (a b : Term)
    (renumbers : s.Renumbers ρ other) :
    Coupling.alike.Related (Option.Rel (Renumbers ρ))
      (Substitution.unifyWithin check depth s a b)
      (Substitution.unifyWithin check depth other (a.renumber ρ) (b.renumber ρ)) :=
  renumbers.unifyBy check (fun _ _ _ _ _ => .inr ⟨rfl, rfl⟩) depth a b

/-- Terms unify under other numbers as they do. -/
theorem unify (check : OccursCheck) (a b : Term) (renumbers : s.Renumbers ρ other) :
    Coupling.alike.Related (Option.Rel (Renumbers ρ)) (s.unify check a b)
      (other.unify check (a.renumber ρ) (b.renumber ρ)) := by
  unfold Substitution.unify
  rw [renumbers.nodes_eq, Term.size_renumber, Term.size_renumber]
  exact renumbers.unifyBy check (fun _ _ a b related => related.unifyWithin check _ a b) _ a b

/-- What the bindings say about two terms is the same. -/
theorem equality (check : OccursCheck) (a b : Term) (renumbers : s.Renumbers ρ other) :
    RelationalSolver.equality check other (a.renumber ρ) (b.renumber ρ) =
      RelationalSolver.equality check s a b := by
  unfold RelationalSolver.equality
  rcases renumbers.unify check a b with
    ⟨result, resultOther, holds, ended, endedOther⟩ | ⟨endless, endlessOther⟩
  · rw [ended, endedOther]
    cases holds with
    | none => rfl
    | some extended => simp only [bind, Except.bind, extended.size_eq, renumbers.size_eq]
  · rw [endless, endlessOther]
    rfl

end Substitution.Renumbers

end RelationalSolver
