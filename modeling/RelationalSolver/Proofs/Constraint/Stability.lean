import RelationalSolver.Proofs.Constraint.Verdicts

/-!
# Verdicts that last

A constraint is found satisfied exactly if every solution satisfies it, as it is found violated
exactly if none does.  Both last when solutions are lost.  A constraint that takes the place of
another holds under the same solutions, so from there on both are found satisfied, and both
violated, together.
-/

namespace RelationalSolver

open Substitution

/-- The bindings are acyclic and free of wildcards, and no solutions were added. -/
structure Substitution.Narrows (s next : Substitution) : Prop where
  acyclic : next.Acyclic
  plain : next.WildcardFree
  within : next.solutions ⊆ s.solutions

/-- Terms of which each differs from each are told apart one by one. -/
theorem pairsOpen_of_never {verdict : Term → Term → Equality}
    {test : Term → Term → Except Unending Equality} : ∀ {ts : List Term},
      (∀ a ∈ ts, ∀ b ∈ ts, test a b = .ok (verdict a b)) →
      (ts.Pairwise fun a b => verdict a b = .never) → pairsOpen test ts = .ok (some false)
  | [], _, _ => rfl
  | t :: ts, tests, apart => by
      obtain ⟨first, later⟩ := List.pairwise_cons.mp apart
      have rest := pairsOpen_of_never (fun a left b right =>
        tests a (List.mem_cons_of_mem t left) b (List.mem_cons_of_mem t right)) later
      have none : ts.filter (fun u => verdict t u = .possible) = [] := by
        rw [List.filter_eq_nil_iff]
        intro u member
        simp [first u member]
      have unequal : ¬ ∃ u ∈ ts, verdict t u = .already := by
        rintro ⟨u, member, already⟩
        rw [first u member] at already
        cases already
      rw [pairsOpen, stillPossible_eq fun u member =>
        tests t (List.mem_cons_self ..) u (List.mem_cons_of_mem t member),
        if_neg unequal, none, rest]
      rfl

namespace Constraint

variable {s next : Substitution} {c d : Constraint}

/-- A variable that does not resolve to a ground term can take a value outside of any domain. -/
theorem exists_solution_outside (acyclic : s.Acyclic) {v : Var}
    (holes : (s.resolve (.var v)).isGround = false) (domain : TermSet) :
    ∃ θ ∈ s.solutions, domain.contains (θ v) = false := by
  -- Every variable takes a value that is larger than all members together.
  let large : Term := .tuple (List.replicate (Term.sizes domain.toList) (.int 0))
  have isLarge : Term.sizes domain.toList < large.size := by
    simp [large, Term.size, Term.sizes_eq_sum]
  obtain ⟨w, inside⟩ : ∃ w, (s.resolve (.var v)).mentions w = true := by
    by_contra closed
    rw [Term.isGround_iff.mpr fun w => by simpa using fun inside => closed ⟨w, inside⟩] at holes
    cases holes
  refine ⟨_, mapVars_resolution_mem acyclic fun _ => large, ?_⟩
  rw [← Bool.not_eq_true]
  intro member
  have grows := Term.size_le_of_mentions (fun _ => large) inside
  have bounded : ((s.resolve (.var v)).mapVars fun _ => large).size ≤ Term.sizes domain.toList := by
    rw [Term.sizes_eq_sum]
    exact List.le_sum_of_mem (List.mem_map_of_mem (TermSet.mem_toList.mpr member))
  omega

/-- A constraint on terms is found satisfied exactly if every solution satisfies it. -/
theorem evaluate_eq_satisfied (acyclic : s.Acyclic) (plain : s.WildcardFree) (proper : c.Proper) :
    c.evaluate .enabled s = .ok .satisfied ↔ ∀ θ ∈ s.solutions, c.Holds θ := by
  constructor
  · intro found
    obtain ⟨verdict, judged, returned⟩ := (family_proper.judged acyclic plain proper).exists
    rw [found] at returned
    cases returned
    exact judged proper.isGuard_eq
  · intro holds
    cases c with
    | neq a b =>
        have never := (standing_eq_never acyclic).mpr holds
        rw [evaluate, equality_eq acyclic plain proper.1 proper.2, never]
        rfl
    | distinct items =>
        have never : items.Pairwise fun a b => s.standing a b = .never := by
          rw [List.pairwise_iff_getElem]
          intro i j first second before
          rw [standing_eq_never acyclic]
          intro θ solves
          exact List.pairwise_iff_getElem.mp (List.pairwise_map.mp (holds θ solves)) i j first
            second before
        rw [evaluate, pairsOpen_of_never (fun a left b right =>
          equality_eq acyclic plain (proper a left) (proper b right)) never]
        rfl
    | notIn e =>
        have never : ∀ t ∈ e.members, s.standing e.subject t = .never := fun t member =>
          (standing_eq_never acyclic).mpr fun θ solves => holds θ solves t member
        have unequal : ¬ ∃ t ∈ e.members, s.standing e.subject t = .already := by
          rintro ⟨t, member, already⟩
          rw [never t member] at already
          cases already
        have none : e.members.filter (fun t => s.standing e.subject t = .possible) = [] := by
          rw [List.filter_eq_nil_iff]
          intro t member
          simp [never t member]
        rw [evaluate, stillPossible_eq fun t member =>
          equality_eq acyclic plain proper.1 (proper.2 t member), if_neg unequal, none]
        rfl
    | inDomain v domain =>
        have ground : (s.resolve (.var v)).isGround = true := by
          by_contra holes
          obtain ⟨θ, solves, outside⟩ :=
            exists_solution_outside acyclic (Bool.eq_false_of_not_eq_true holes) domain
          have inside := holds θ solves
          rw [Holds, outside] at inside
          cases inside
        have inside := holds _ (resolution_mem acyclic)
        change domain.contains (s.resolve (.var v)) = true at inside
        simp only [evaluate, ground, inside, if_true]
        rfl
    | cardinality factors => exact proper.elim

/-- What a verdict promises of later bindings. -/
def Lasts (next : Substitution) (c : Constraint) : Verdict → Prop
  | .satisfied => c.evaluate .enabled next = .ok .satisfied
  | .violated => c.evaluate .enabled next = .ok .violated
  | .simplified d =>
      (d.evaluate .enabled next = .ok .satisfied ↔ c.evaluate .enabled next = .ok .satisfied) ∧
      (d.evaluate .enabled next = .ok .violated ↔ c.evaluate .enabled next = .ok .violated)
  | .pending => True

/-- A verdict is never taken back where solutions are only lost. -/
theorem evaluate_lasts {verdict : Verdict} (acyclic : s.Acyclic) (plain : s.WildcardFree)
    (proper : c.Proper) (narrows : s.Narrows next) (found : c.evaluate .enabled s = .ok verdict) :
    Lasts next c verdict := by
  obtain ⟨acyclicNext, plainNext, within⟩ := narrows
  cases verdict with
  | satisfied =>
      rw [evaluate_eq_satisfied acyclic plain proper] at found
      exact (evaluate_eq_satisfied acyclicNext plainNext proper).mpr
        fun θ solves => found θ (within solves)
  | violated =>
      rw [evaluate_eq_violated acyclic plain proper] at found
      exact (evaluate_eq_violated acyclicNext plainNext proper).mpr
        fun θ solves => found θ (within solves)
  | simplified d =>
      obtain ⟨_, judged, returned⟩ := (family_proper.judged acyclic plain proper).exists
      rw [found] at returned
      cases returned
      obtain ⟨properSimpler, _, _, _, _, same⟩ := judged
      have alike : ∀ θ ∈ next.solutions, (d.Holds θ ↔ c.Holds θ) :=
        fun θ solves => same θ (within solves)
      rw [Lasts, evaluate_eq_satisfied acyclicNext plainNext properSimpler,
        evaluate_eq_satisfied acyclicNext plainNext proper,
        evaluate_eq_violated acyclicNext plainNext properSimpler,
        evaluate_eq_violated acyclicNext plainNext proper]
      exact ⟨forall₂_congr alike, forall₂_congr fun θ solves => not_congr (alike θ solves)⟩
  | pending => trivial

end Constraint

end RelationalSolver
