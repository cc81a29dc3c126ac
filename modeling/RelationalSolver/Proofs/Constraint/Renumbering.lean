import RelationalSolver.Proofs.Constraint.Storage
import RelationalSolver.Proofs.Goal.Renumbering

/-!
# Constraints under other numbers

A constraint is decided under other numbers as it is, and stores keep the same constraints
under the same ids, waiting for the same variables.
-/

namespace RelationalSolver

variable {ρ : ℕ ↪o ℕ} {s other : Substitution}

/-! ## Deciding -/

/-- The verdicts are the same but for the numbers of variables. -/
inductive Verdict.Renumbers (ρ : ℕ → ℕ) : Verdict → Verdict → Prop
  | satisfied : Verdict.Renumbers ρ .satisfied .satisfied
  | violated : Verdict.Renumbers ρ .violated .violated
  | simplified {c other : Constraint} : c.Renumbers ρ other →
      Verdict.Renumbers ρ (.simplified c) (.simplified other)
  | pending : Verdict.Renumbers ρ .pending .pending

section Tests

variable {test testOther : Term → Except Unending Equality}
variable (same : ∀ t : Term, testOther (t.renumber ρ) = test t)
include same

theorem stillPossible_renumber (ts : List Term) :
    stillPossible testOther (ts.map (·.renumber ρ)) =
      Option.map (List.map (·.renumber ρ)) <$> stillPossible test ts := by
  induction ts with
  | nil => rfl
  | cons t ts ih =>
      rw [List.map_cons, stillPossible, stillPossible, same, ih]
      cases test t with
      | error e => rfl
      | ok verdict =>
          cases verdict with
          | never => rfl
          | already => rfl
          | possible =>
              cases stillPossible test ts with
              | error e => rfl
              | ok result => cases result <;> rfl

theorem candidates_renumber (ts : List Term) :
    candidates testOther (ts.map (·.renumber ρ)) =
      List.map (·.renumber ρ) <$> candidates test ts := by
  induction ts with
  | nil => rfl
  | cons t ts ih =>
      rw [List.map_cons, candidates, candidates, same, ih]
      cases test t with
      | error e => rfl
      | ok verdict =>
          cases candidates test ts with
          | error e => rfl
          | ok rest => cases verdict <;> rfl

end Tests

theorem pairsOpen_renumber {test testOther : Term → Term → Except Unending Equality}
    (same : ∀ t u : Term, testOther (t.renumber ρ) (u.renumber ρ) = test t u) (ts : List Term) :
    pairsOpen testOther (ts.map (·.renumber ρ)) = pairsOpen test ts := by
  induction ts with
  | nil => rfl
  | cons t ts ih =>
      rw [List.map_cons, pairsOpen, pairsOpen, stillPossible_renumber (same t), ih]
      cases stillPossible (test t) ts with
      | error e => rfl
      | ok result =>
          cases result with
          | none => rfl
          | some here =>
              cases pairsOpen test ts with
              | error e => rfl
              | ok later =>
                  cases later with
                  | none => rfl
                  | some later => cases here <;> rfl

namespace Coupling

theorem alike_refl {α : Type} (x : Except Unending α) : alike.Related Eq x x := by
  cases x with
  | ok a => exact alike.pure rfl
  | error e => exact .inr ⟨rfl, rfl⟩

theorem alike_map {α β : Type} (f : α → β) (x : Except Unending α) :
    alike.Related (fun a b => b = f a) x (f <$> x) := by
  cases x with
  | ok a => exact alike.pure rfl
  | error e => exact .inr ⟨rfl, rfl⟩

end Coupling

namespace Constraint.Renumbers

variable {c cOther : Constraint}

theorem vars (same : c.Renumbers ρ cOther) : cOther.vars = c.vars.map (·.renumber ρ) :=
  Goal.constraintVars_renumber same

section Deciding

open Coupling

variable (check : OccursCheck) (renumbers : s.Renumbers ρ other)
include renumbers

/-- A value that is known is looked up among values that are the same, and otherwise they are
tried one by one. -/
theorem evaluate_inDomain (v : Var) {domain domainOther : TermSet}
    (values : domain.Renumbers ρ domainOther) :
    alike.Related (Verdict.Renumbers ρ) ((Constraint.inDomain v domain).evaluate check s)
      ((Constraint.inDomain (v.renumber ρ) domainOther).evaluate check other) := by
  unfold Constraint.evaluate
  dsimp only
  rw [← Term.renumber_var, renumbers.resolve, Term.isGround_renumber, Term.asVar?_renumber,
    Option.isSome_map, values.contains, values.isEmpty_eq, values.size_eq, values,
    candidates_renumber fun t => renumbers.equality check (s.resolve (.var v)) t]
  split
  · split
    · exact alike.pure .satisfied
    · exact alike.pure .violated
  · split
    · split
      · exact alike.pure .violated
      · exact alike.pure .pending
    · apply alike.bind (alike_map _ _)
      rintro fitting _ rfl
      rw [List.isEmpty_map, List.length_map]
      split
      · exact alike.pure .violated
      · split
        · exact alike.pure (.simplified (.inDomain v (TermSet.ofList_renumbers ρ fitting)))
        · exact alike.pure .pending

theorem cardinalityBound_renumber {factors others : List Goal}
    (below : List.Forall₂ (Goal.Renumbers ρ) factors others) :
    cardinalityBound other others = cardinalityBound s factors := by
  have sized : List.Forall₂ (Goal.Renumbers ρ) (factors.filter (·.isSized))
      (others.filter (·.isSized)) :=
    List.rel_filter (fun _ _ same => (Bool.eq_iff_iff.mp same.isSized).symm) below
  unfold cardinalityBound
  rw [Goal.bounds_renumber renumbers sized]

theorem isGround_resolve_renumber (v : Var) :
    (other.resolve (.var (v.renumber ρ))).isGround = (s.resolve (.var v)).isGround := by
  rw [← Term.renumber_var, renumbers.resolve, Term.isGround_renumber]

/-- A constraint is decided in the same way. -/
theorem evaluate (same : c.Renumbers ρ cOther) :
    alike.Related (Verdict.Renumbers ρ) (c.evaluate check s) (cOther.evaluate check other) := by
  have equal := fun a b : Term => renumbers.equality check a b
  cases same with
  | neq a b =>
      unfold Constraint.evaluate
      dsimp only
      rw [equal]
      apply alike.bind (alike_refl _)
      rintro verdict _ rfl
      cases verdict with
      | never => exact alike.pure .satisfied
      | already => exact alike.pure .violated
      | possible => exact alike.pure .pending
  | distinct items =>
      unfold Constraint.evaluate
      dsimp only
      rw [pairsOpen_renumber equal]
      apply alike.bind (alike_refl _)
      rintro result _ rfl
      rcases result with _ | _ | _
      · exact alike.pure .violated
      · exact alike.pure .satisfied
      · exact alike.pure .pending
  | notIn e =>
      unfold Constraint.evaluate Exclusion.renumber
      dsimp only
      rw [stillPossible_renumber (equal e.subject)]
      apply alike.bind (alike_map _ _)
      rintro result _ rfl
      rcases result with _ | _ | ⟨t, members⟩
      · exact alike.pure .violated
      · exact alike.pure .satisfied
      · rw [Option.map_some, List.map_cons]
        dsimp only
        rw [← List.map_cons, List.length_map, List.length_map]
        split
        · exact alike.pure (.simplified (.notIn ⟨e.subject, t :: members⟩))
        · exact alike.pure .pending
  | inDomain v values => exact evaluate_inDomain check renumbers v values
  | cardinality below =>
      unfold Constraint.evaluate
      dsimp only
      rw [cardinalityBound_renumber renumbers below, vars (.cardinality below), List.all_map]
      simp only [Function.comp_def, isGround_resolve_renumber renumbers]
      apply alike.bind (alike_refl _)
      rintro bound _ rfl
      split
      · exact alike.pure .violated
      · split
        · exact alike.pure .satisfied
        · exact alike.pure .pending

end Deciding

end Constraint.Renumbers

/-! ## Storing -/

namespace ConstraintStore

variable {store other : ConstraintStore} {v w : Var} {id i : Nat} {c cOther : Constraint}

/-- The same constraints are kept under the same ids and wait for the same variables, but for
the numbers of variables. -/
structure Renumbers (ρ : ℕ → ℕ) (store other : ConstraintStore) : Prop where
  nextId : other.nextId = store.nextId
  entries : ∀ id, Option.Rel (Constraint.Renumbers ρ) (store.get? id) (other.get? id)
  idsFor : ∀ v, other.idsFor (v.renumber ρ) = store.idsFor v
  varsFor : ∀ id, other.varsFor id = (store.varsFor id).map (·.renumber ρ)

namespace Renumbers

theorem empty (ρ : ℕ → ℕ) : Renumbers ρ .empty .empty :=
  ⟨rfl, fun _ => by simp [ConstraintStore.empty, get?],
    fun _ => by simp [ConstraintStore.empty, ConstraintStore.idsFor],
    fun _ => by simp [ConstraintStore.empty, ConstraintStore.varsFor]⟩

variable (same : store.Renumbers ρ other)
include same

theorem indexVar (id : Nat) (v : Var) :
    (indexVar id store v).Renumbers ρ (indexVar id other (v.renumber ρ)) := by
  by_cases anonymous : v = .wildcard
  · subst anonymous
    exact same
  · have anonymousOther : v.renumber ρ ≠ .wildcard := by simpa using anonymous
    refine ⟨?_, ?_, ?_, ?_⟩
    · rw [nextId_indexVar, nextId_indexVar, same.nextId]
    · intro i
      rw [get?_indexVar, get?_indexVar]
      exact same.entries i
    · intro w
      rw [idsFor_indexVar anonymous, idsFor_indexVar anonymousOther, same.idsFor]
      simp only [Var.renumber_inj]
    · intro i
      rw [varsFor_indexVar anonymous, varsFor_indexVar anonymousOther, same.varsFor,
        apply_ite (List.map _), ← appendNew_map (Var.renumber_injective ρ)]

theorem indexUnder (id : Nat) (vars : List Var) :
    (store.indexUnder id vars).Renumbers ρ (other.indexUnder id (vars.map (·.renumber ρ))) := by
  have waits : ∀ (vars : List Var) (store other : ConstraintStore), store.Renumbers ρ other →
      (vars.foldl (ConstraintStore.indexVar id) store).Renumbers ρ
        ((vars.map (·.renumber ρ)).foldl (ConstraintStore.indexVar id) other) := by
    intro vars
    induction vars with
    | nil => exact fun _ _ same => same
    | cons v vars ih => exact fun _ _ same => ih _ _ (same.indexVar id v)
  apply waits
  refine ⟨same.nextId, same.entries, same.idsFor, ?_⟩
  intro i
  rw [varsFor_reserved, varsFor_reserved, same.varsFor]

theorem withEntry (id : Nat) (held : c.Renumbers ρ cOther) :
    Renumbers ρ { store with entries := store.entries.insert id c }
      { other with entries := other.entries.insert id cOther } := by
  refine ⟨same.nextId, ?_, same.idsFor, same.varsFor⟩
  intro i
  rw [get?, get?, Std.TreeMap.getElem?_insert, Std.TreeMap.getElem?_insert]
  split
  · exact .some held
  · exact same.entries i

theorem insert (held : c.Renumbers ρ cOther) (vars : List Var) :
    (store.insert c vars).1.Renumbers ρ (other.insert cOther (vars.map (·.renumber ρ))).1 := by
  have kept := same.withEntry store.nextId held
  unfold ConstraintStore.insert
  dsimp only
  rw [same.nextId]
  apply indexUnder
  exact ⟨rfl, kept.entries, same.idsFor, same.varsFor⟩

theorem replace (id : Nat) (held : c.Renumbers ρ cOther) (vars : List Var) :
    (store.replace id c vars).Renumbers ρ
      (other.replace id cOther (vars.map (·.renumber ρ))) :=
  (same.withEntry id held).indexUnder id vars

theorem remove (id : Nat) : (store.remove id).Renumbers ρ (other.remove id) := by
  refine ⟨same.nextId, ?_, ?_, ?_⟩
  · intro i
    rw [get?_remove, get?_remove]
    split
    · exact .none
    · exact same.entries i
  · intro w
    rw [idsFor_remove, idsFor_remove, same.varsFor, same.idsFor]
    simp only [List.mem_map_of_injective (Var.renumber_injective ρ)]
  · intro i
    rw [varsFor_remove, varsFor_remove, same.varsFor]
    split <;> rfl

end Renumbers

end ConstraintStore

end RelationalSolver
