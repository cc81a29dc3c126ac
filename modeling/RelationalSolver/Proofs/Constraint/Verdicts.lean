import RelationalSolver.Proofs.Constraint.Equality
import RelationalSolver.Proofs.Constraint.Meaning
import RelationalSolver.Proofs.Goal.Bounds

/-!
# What verdicts say

A constraint on terms is violated exactly when no solution satisfies it, and a
verdict that drops or replaces it loses nothing that solutions could tell.  Of a
guard only a violation says something: that the factors of a cardinality constraint on
proper goals exclude every solution, so it can stand among constraints on terms.
-/

namespace RelationalSolver

namespace Constraint

open Substitution

/-- What a verdict means for the solutions of the bindings.  A constraint that
takes the place of another is of the same kind and reports no further variables. -/
def Judged (Member : Constraint → Prop) (s : Substitution) (c : Constraint) : Verdict → Prop
  | .violated => ∀ θ ∈ s.solutions, ¬ c.Holds θ
  | .satisfied => c.isGuard = false → ∀ θ ∈ s.solutions, c.Holds θ
  | .simplified next =>
      Member next ∧ next.isGuard = false ∧ c.isGuard = false ∧ next.vars ⊆ c.vars ∧
      (∃ θ ∈ s.solutions, c.Holds θ) ∧ ∀ θ ∈ s.solutions, (next.Holds θ ↔ c.Holds θ)
  | .pending => c.isGuard = false → ∃ θ ∈ s.solutions, c.Holds θ

/-- Constraints whose verdicts are right, where evaluation comes to an end. -/
structure Family (Member : Constraint → Prop) (endless : Prop) : Prop where
  proper : ∀ {c}, Member c → c.isGuard = false → c.Proper
  judged : ∀ {s c}, s.Acyclic → s.WildcardFree → Member c →
    Settles endless (c.evaluate .enabled s) (Judged Member s c)

variable {s : Substitution}

theorem neq_judged {a b : Term} (acyclic : s.Acyclic) (plain : s.WildcardFree)
    (proper : (neq a b).Proper) :
    ∃ verdict, Judged Proper s (neq a b) verdict ∧
      (neq a b).evaluate .enabled s = .ok verdict := by
  rw [evaluate, equality_eq acyclic plain proper.1 proper.2]
  cases stands : s.standing a b with
  | never =>
      rw [standing_eq_never acyclic] at stands
      exact ⟨.satisfied, fun _ => stands, rfl⟩
  | already =>
      rw [standing_eq_already] at stands
      refine ⟨.violated, ?_, rfl⟩
      intro θ solves holds
      exact holds (mapVars_eq_of_resolve_eq acyclic stands solves)
  | possible =>
      refine ⟨.pending, ?_, rfl⟩
      intro _
      refine ⟨s.resolution, resolution_mem acyclic, ?_⟩
      intro same
      rw [standing_eq_already.mpr same] at stands
      contradiction

theorem distinct_judged {items : List Term} (acyclic : s.Acyclic) (plain : s.WildcardFree)
    (proper : (distinct items).Proper) :
    ∃ verdict, Judged Proper s (distinct items) verdict ∧
      (distinct items).evaluate .enabled s = .ok verdict := by
  have tests : ∀ a ∈ items, ∀ b ∈ items, equality .enabled s a b = .ok (s.standing a b) :=
    fun a left b right => equality_eq acyclic plain (proper a left) (proper b right)
  obtain ⟨result, returned, judged⟩ := pairsOpen_judged tests
  have resolved : (items.Pairwise fun a b => s.standing a b ≠ .already) →
      (distinct items).Holds s.resolution := by
    intro apart
    apply List.pairwise_map.mpr
    apply apart.imp
    intro a b different same
    exact different (standing_eq_already.mpr same)
  rw [evaluate, returned]
  cases result with
  | none =>
      refine ⟨.violated, ?_, rfl⟩
      intro θ solves holds
      apply judged
      apply (List.pairwise_map.mp holds).imp
      intro a b different stands
      rw [standing_eq_already] at stands
      exact different (mapVars_eq_of_resolve_eq acyclic stands solves)
  | some stillOpen =>
      cases stillOpen with
      | true => exact ⟨.pending, fun _ => ⟨_, resolution_mem acyclic, resolved judged⟩, rfl⟩
      | false =>
          refine ⟨.satisfied, ?_, rfl⟩
          intro _ θ solves
          apply List.pairwise_map.mpr
          apply List.Pairwise.imp _ judged
          intro a b never
          exact (standing_eq_never acyclic).mp never θ solves

/-- Members that can never be equal to the subject may be left out. -/
theorem notIn_filter_holds {e : Exclusion} (acyclic : s.Acyclic)
    (apart : ∀ t ∈ e.members, s.standing e.subject t ≠ .already) {θ : Assignment}
    (solves : θ ∈ s.solutions) :
    (notIn ⟨e.subject, e.members.filter fun t => s.standing e.subject t = .possible⟩).Holds θ ↔
      (notIn e).Holds θ := by
  constructor
  · intro holds t member
    cases stands : s.standing e.subject t with
    | never => exact (standing_eq_never acyclic).mp stands θ solves
    | already => exact absurd stands (apart t member)
    | possible => exact holds t (by simp [member, stands])
  · intro holds t member
    exact holds t (List.mem_of_mem_filter member)

theorem notIn_judged {e : Exclusion} (acyclic : s.Acyclic) (plain : s.WildcardFree)
    (proper : (notIn e).Proper) :
    ∃ verdict, Judged Proper s (notIn e) verdict ∧
      (notIn e).evaluate .enabled s = .ok verdict := by
  rw [evaluate, stillPossible_eq fun t member =>
    equality_eq acyclic plain proper.1 (proper.2 t member)]
  by_cases equal : ∃ t ∈ e.members, s.standing e.subject t = .already
  · rw [if_pos equal]
    refine ⟨.violated, ?_, rfl⟩
    intro θ solves holds
    obtain ⟨t, member, stands⟩ := equal
    rw [standing_eq_already] at stands
    exact holds t member (mapVars_eq_of_resolve_eq acyclic stands solves)
  · rw [if_neg equal]
    have apart : ∀ t ∈ e.members, s.standing e.subject t ≠ .already :=
      fun t member stands => equal ⟨t, member, stands⟩
    have same := fun (θ : Assignment) (solves : θ ∈ s.solutions) =>
      notIn_filter_holds acyclic apart solves
    have left : ∃ θ ∈ s.solutions, (notIn e).Holds θ := by
      refine ⟨s.resolution, resolution_mem acyclic, ?_⟩
      intro t member equal
      exact apart t member (standing_eq_already.mpr equal)
    have proper' : (notIn ⟨e.subject,
        e.members.filter fun t => s.standing e.subject t = .possible⟩).Proper :=
      ⟨proper.1, fun t member => proper.2 t (List.mem_of_mem_filter member)⟩
    have fewer : (notIn ⟨e.subject,
        e.members.filter fun t => s.standing e.subject t = .possible⟩).vars ⊆ (notIn e).vars := by
      intro v member
      simp only [vars, Goal.constraintVars, mem_varsOf, List.mem_cons] at member ⊢
      obtain ⟨⟨t, among, inside⟩, named⟩ := member
      exact ⟨⟨t, among.imp_right List.mem_of_mem_filter, inside⟩, named⟩
    generalize e.members.filter (fun t => s.standing e.subject t = .possible) = members at *
    cases members with
    | nil =>
        refine ⟨.satisfied, ?_, rfl⟩
        intro _ θ solves
        exact (same θ solves).mp fun t member => absurd member (List.not_mem_nil)
    | cons t members =>
        by_cases shorter : (t :: members).length < e.members.length
        · refine ⟨.simplified (.notIn ⟨e.subject, t :: members⟩), ?_, ?_⟩
          · exact ⟨proper', rfl, rfl, fewer, left, same⟩
          · exact if_pos shorter
        · exact ⟨.pending, fun _ => left, if_neg shorter⟩

/-- The values that a domain leaves to a variable are those its term can equal. -/
theorem inDomain_filter_holds {v : Var} {domain : TermSet} (acyclic : s.Acyclic)
    (proper : (inDomain v domain).Proper) {θ : Assignment} (solves : θ ∈ s.solutions) :
    (inDomain v (.ofList (domain.toList.filter fun t =>
        s.standing (s.resolve (.var v)) t ≠ .never))).Holds θ ↔
      (inDomain v domain).Holds θ := by
  simp only [Holds, TermSet.contains_ofList, List.mem_filter, TermSet.mem_toList,
    decide_eq_true_eq]
  constructor
  · exact fun holds => holds.1
  · intro inside
    refine ⟨inside, ?_⟩
    intro never
    have value := mapVars_resolve acyclic solves (.var v)
    have ground := Term.mapVars_of_isGround θ (proper.2 _ inside)
    exact (standing_eq_never acyclic).mp never θ solves (value.trans ground.symm)

/-- A variable that resolves to a variable can take every ground value. -/
theorem exists_solution_of_resolve_var {v w : Var} (acyclic : s.Acyclic)
    (value : s.resolve (.var v) = .var w) (t : Term) : ∃ θ ∈ s.solutions, θ v = t := by
  refine ⟨_, mapVars_resolution_mem acyclic fun _ => t, ?_⟩
  simp [value]

theorem inDomain_judged {v : Var} {domain : TermSet} (acyclic : s.Acyclic)
    (plain : s.WildcardFree) (proper : (inDomain v domain).Proper) :
    ∃ verdict, Judged Proper s (inDomain v domain) verdict ∧
      (inDomain v domain).evaluate .enabled s = .ok verdict := by
  have value : ∀ θ ∈ s.solutions, (s.resolve (.var v)).mapVars θ = θ v :=
    fun θ solves => mapVars_resolve acyclic solves (.var v)
  rw [evaluate]
  by_cases ground : (s.resolve (.var v)).isGround = true
  · have fixed : ∀ θ ∈ s.solutions, θ v = s.resolve (.var v) := by
      intro θ solves
      rw [← value θ solves, Term.mapVars_of_isGround θ ground]
    cases inside : domain.contains (s.resolve (.var v)) with
    | true =>
        refine ⟨.satisfied, ?_, by simp [ground]; rfl⟩
        intro _ θ solves
        simpa only [Holds, fixed θ solves] using inside
    | false =>
        refine ⟨.violated, ?_, by simp [ground]; rfl⟩
        intro θ solves holds
        simp only [Holds, fixed θ solves, inside] at holds
        contradiction
  · have free : (Term.var v).WildcardFree := by
      rw [Term.WildcardFree, ← Bool.not_eq_true, Term.mentions_var]
      exact proper.1
    have tests : ∀ t ∈ domain.toList, equality .enabled s (s.resolve (.var v)) t =
        .ok (s.standing (s.resolve (.var v)) t) := by
      intro t member
      have constant := Term.isGround_iff.mp (proper.2 t (TermSet.mem_toList.mp member))
      exact equality_eq acyclic plain (plain.resolve acyclic free) (constant _)
    cases isVar : (s.resolve (.var v)).asVar? with
    | some w =>
        have same : s.resolve (.var v) = .var w := by
          cases term : s.resolve (.var v) <;> simp_all [Term.asVar?]
        cases empty : domain.isEmpty with
        | true =>
            refine ⟨.violated, ?_, by simp [ground]; rfl⟩
            intro θ _ holds
            have absent := Std.TreeSet.isEmpty_iff_forall_contains.mp empty (θ v)
            rw [Holds, TermSet.contains, absent] at holds
            contradiction
        | false =>
            refine ⟨.pending, ?_, by simp [ground]; rfl⟩
            intro _
            obtain ⟨t, member⟩ :=
              Std.TreeSet.isEmpty_eq_false_iff_exists_contains_eq_true.mp empty
            obtain ⟨θ, solves, taken⟩ := exists_solution_of_resolve_var acyclic same t
            refine ⟨θ, solves, ?_⟩
            rw [Holds, taken]
            exact member
    | none =>
        have narrowed := fun (θ : Assignment) (solves : θ ∈ s.solutions) =>
          inDomain_filter_holds acyclic proper solves
        have among : ∀ t ∈ domain.toList.filter fun t =>
            s.standing (s.resolve (.var v)) t ≠ .never, t ∈ domain.toList ∧
              s.standing (s.resolve (.var v)) t ≠ .never := by
          intro t member
          simpa [List.mem_filter] using member
        simp only [ground, Option.isSome_none, Bool.false_eq_true, if_false,
          candidates_eq tests]
        generalize domain.toList.filter (fun t =>
          s.standing (s.resolve (.var v)) t ≠ .never) = fitting at *
        cases fitting with
        | nil =>
            refine ⟨.violated, ?_, rfl⟩
            intro θ solves holds
            have inside := (narrowed θ solves).mpr holds
            simp [Holds] at inside
        | cons t fitting =>
            have left : ∃ θ ∈ s.solutions, (inDomain v domain).Holds θ := by
              obtain ⟨member, possible⟩ := among t (List.mem_cons_self ..)
              rw [ne_eq, standing_eq_never acyclic] at possible
              push Not at possible
              obtain ⟨θ, solves, equal⟩ := possible
              have inside := TermSet.mem_toList.mp member
              refine ⟨θ, solves, ?_⟩
              rw [value θ solves, Term.mapVars_of_isGround θ (proper.2 t inside)] at equal
              rw [Holds, equal]
              exact inside
            by_cases shorter : (t :: fitting).length < domain.size
            · refine ⟨.simplified (.inDomain v (.ofList (t :: fitting))), ?_, if_pos shorter⟩
              refine ⟨⟨proper.1, ?_⟩, rfl, rfl, fun _ member => member, left, narrowed⟩
              intro u member
              rw [TermSet.contains_ofList] at member
              exact proper.2 u (TermSet.mem_toList.mp (among u member).1)
            · exact ⟨.pending, fun _ => left, if_neg shorter⟩

/-- The constraints on terms are judged rightly, and evaluating them always comes
to an end. -/
theorem family_proper : Family Proper False where
  proper proper _ := proper
  judged {s c} acyclic plain proper := by
    apply Or.inl
    cases c with
    | neq a b => exact neq_judged acyclic plain proper
    | distinct items => exact distinct_judged acyclic plain proper
    | notIn e => exact notIn_judged acyclic plain proper
    | inDomain v domain => exact inDomain_judged acyclic plain proper
    | cardinality factors => exact proper.elim

/-- What is not violated can still be met, unless it only prunes. -/
theorem Judged.exists_holds {Member : Constraint → Prop} {c : Constraint} {verdict : Verdict}
    (acyclic : s.Acyclic) (decides : c.isGuard = false) (judged : Judged Member s c verdict)
    (different : verdict ≠ .violated) : ∃ θ ∈ s.solutions, c.Holds θ := by
  cases verdict with
  | violated => exact absurd rfl different
  | satisfied => exact ⟨_, resolution_mem acyclic, judged decides _ (resolution_mem acyclic)⟩
  | simplified next =>
      obtain ⟨_, _, _, _, left, _⟩ := judged
      exact left
  | pending => exact judged decides

/-- A constraint on terms is found violated exactly if no solution satisfies it. -/
theorem evaluate_eq_violated {c : Constraint} (acyclic : s.Acyclic) (plain : s.WildcardFree)
    (proper : c.Proper) :
    c.evaluate .enabled s = .ok .violated ↔ ∀ θ ∈ s.solutions, ¬ c.Holds θ := by
  obtain ⟨verdict, judged, returned⟩ := (family_proper.judged acyclic plain proper).exists
  rw [returned]
  constructor
  · intro equal
    cases equal
    exact judged
  · intro never
    by_contra different
    have notViolated : verdict ≠ .violated := fun equal => different (congrArg Except.ok equal)
    obtain ⟨θ, solves, holds⟩ := judged.exists_holds acyclic proper.isGuard_eq notViolated
    exact never θ solves holds

end Constraint

/-! ## Guards -/

variable {s : Substitution} {c : Constraint}

theorem Settles.of_settles_false {m : Type → Type} [Monad m] [Unbounded m] {α : Type} {x : m α}
    {condition : α → Prop} {endless : Prop} (settles : Settles False x condition) :
    Settles endless x condition := by
  rcases settles.exists with ⟨a, holds, rfl⟩
  exact .pure holds

namespace Constraint

/-- A constraint on terms, or a guard of proper goals. -/
def Guarded (c : Constraint) : Prop :=
  c.Proper ∨ ∃ factors, c = .cardinality factors ∧ ∀ g ∈ factors, g.Proper

theorem Judged.mono {Member More : Constraint → Prop} {verdict : Verdict}
    (judged : Judged Member s c verdict) (more : ∀ c, Member c → More c) :
    Judged More s c verdict := by
  cases verdict with
  | simplified next => exact ⟨more next judged.1, judged.2⟩
  | violated => exact judged
  | satisfied => exact judged
  | pending => exact judged

theorem exists_not_admits {factors : List Goal} {bound : SizeBound} (acyclic : s.Acyclic)
    (proper : ∀ g ∈ factors, g.Proper) (bounded : cardinalityBound s factors = .ok bound)
    (zero : bound.isZero = true) {θ : Assignment} (solves : θ ∈ s.solutions) :
    ∃ g ∈ factors, g.isSized = true ∧ ¬ g.Admits θ := by
  rw [cardinalityBound] at bounded
  cases each : Goal.bounds s (factors.filter (·.isSized)) with
  | error e =>
      rw [each] at bounded
      cases bounded
  | ok list =>
      rw [each] at bounded
      cases bounded
      have properSized : Goal.AllProper (factors.filter (·.isSized)) := by
        rw [Goal.allProper_iff]
        exact fun g member => proper g (List.mem_of_mem_filter member)
      have sound := Goal.forall₂_of_bounds acyclic solves _ list properSized each
      rcases List.forall₂_iff_get.mp sound with ⟨lengths, sound⟩
      rcases SizeBound.exists_isZero_of_product zero with ⟨b, member, zero⟩
      rcases List.get_of_mem member with ⟨⟨i, bound⟩, rfl⟩
      have inside : i < (factors.filter (·.isSized)).length := lengths ▸ bound
      have chosen := List.get_mem (factors.filter (·.isSized)) ⟨i, inside⟩
      rcases List.mem_filter.mp chosen with ⟨among, sized⟩
      exact ⟨_, among, sized, sound i inside bound zero⟩

theorem cardinality_judged {factors : List Goal} (acyclic : s.Acyclic)
    (proper : ∀ g ∈ factors, g.Proper) :
    Settles True ((cardinality factors).evaluate .enabled s)
      (Judged Guarded s (cardinality factors)) := by
  rw [evaluate]
  cases bounded : cardinalityBound s factors with
  | error e => exact .inr ⟨trivial, rfl⟩
  | ok bound =>
      change Settles True (if bound.isZero then pure Verdict.violated else if _ then _ else _) _
      split
      · rename_i zero
        apply Settles.pure
        intro θ solves holds
        rcases exists_not_admits acyclic proper bounded zero solves with
          ⟨g, member, sized, excluded⟩
        exact excluded (holds g member sized)
      · have isGuard : (cardinality factors).isGuard ≠ false := Bool.noConfusion
        split
        · exact .pure fun plain => absurd plain isGuard
        · exact .pure fun plain => absurd plain isGuard

/-- Constraints on terms and guards of proper goals are judged rightly.  Bounds need
not come to an end. -/
theorem family_guarded : Family Guarded True where
  proper member decides := by
    rcases member with proper | ⟨factors, rfl, _⟩
    · exact proper
    · cases decides
  judged {s c} acyclic plain member := by
    rcases member with proper | ⟨factors, rfl, proper⟩
    · exact (family_proper.judged acyclic plain proper).of_settles_false.mono
        fun verdict judged => judged.mono fun _ => .inl
    · exact cardinality_judged acyclic proper

end Constraint

end RelationalSolver
