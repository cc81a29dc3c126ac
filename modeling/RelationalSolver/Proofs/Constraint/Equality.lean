import RelationalSolver.Constraint.Evaluation
import RelationalSolver.Proofs.Unification.MostGeneral

/-!
# Deciding equality

With the occurrence test, what unification finds out about two terms is a fact
about solutions: they are equal already if they resolve to one term, and can
become equal if some solution makes them equal.  The comparisons of a term with
several others and of several terms with each other follow from this.
-/

namespace RelationalSolver

namespace Substitution

variable {s next : Substitution} {a b : Term} {θ : Assignment}

/-- An extension with as many bindings has the same solutions. -/
theorem solutions_eq_of_size_eq (extended : next.Extends s) (same : next.size = s.size) :
    next.solutions = s.solutions := by
  apply Set.Subset.antisymm (solutions_subset_of_extends extended)
  have kept : s.boundVars ⊆ next.boundVars := by
    intro v member
    rw [mem_boundVars, Option.isSome_iff_exists] at member ⊢
    obtain ⟨t, bound⟩ := member
    exact ⟨t, extended v t bound⟩
  have sameVars : s.boundVars = next.boundVars := by
    apply Finset.eq_of_subset_of_card_le kept
    rw [card_boundVars, card_boundVars, same]
  intro θ solves v t bound
  have member : v ∈ s.boundVars := by
    rw [sameVars, mem_boundVars, bound]
    rfl
  rw [mem_boundVars, Option.isSome_iff_exists] at member
  obtain ⟨u, before⟩ := member
  have unchanged := extended v u before
  rw [bound] at unchanged
  cases unchanged
  exact solves v t before

/-- A further binding of an acyclic substitution does not hold under the former
resolution. -/
theorem size_eq_of_resolution_mem (acyclic : s.Acyclic) (acyclicNext : next.Acyclic)
    (extended : next.Extends s) (solves : s.resolution ∈ next.solutions) :
    next.size = s.size := by
  rw [← card_boundVars, ← card_boundVars]
  congr 1
  ext v
  rw [mem_boundVars, mem_boundVars, Option.isSome_iff_exists, Option.isSome_iff_exists]
  constructor
  · rintro ⟨t, bound⟩
    cases before : s.lookup v with
    | some u => exact ⟨u, rfl⟩
    | none =>
        have value : s.resolve (.var v) = s.resolve t := solves v t bound
        rw [resolve_of_unbound before] at value
        have inside : (s.resolve t).mentions v = true := by
          rw [← value]
          exact Term.mentions_var.mpr rfl
        obtain ⟨w, within, path⟩ :=
          ((mentions_resolve acyclic).mp inside).1.of_extends extended
        exact absurd (Relation.TransGen.head' ⟨t, bound, within⟩ path) (acyclicNext v)
  · rintro ⟨t, bound⟩
    exact ⟨t, extended v t bound⟩

open Classical in
/-- How two terms stand by the solutions. -/
noncomputable def standing (s : Substitution) (a b : Term) : Equality :=
  if s.resolve a = s.resolve b then .already
  else if (s.solutions ∩ unifiers a b).Nonempty then .possible
  else .never

@[simp] theorem standing_eq_already : s.standing a b = .already ↔ s.resolve a = s.resolve b := by
  unfold standing
  split
  · simp [*]
  · split <;> simp [*]

theorem standing_eq_never (acyclic : s.Acyclic) :
    s.standing a b = .never ↔ ∀ θ ∈ s.solutions, a.mapVars θ ≠ b.mapVars θ := by
  unfold standing
  split
  · rename_i same
    simp only [reduceCtorEq, false_iff, not_forall]
    exact ⟨s.resolution, resolution_mem acyclic, not_not_intro same⟩
  · split
    · rename_i nonempty
      obtain ⟨θ, solves, equal⟩ := nonempty
      simp only [reduceCtorEq, false_iff, not_forall]
      exact ⟨θ, solves, not_not_intro equal⟩
    · rename_i empty
      simp only [true_iff]
      exact fun θ solves equal => empty ⟨θ, solves, equal⟩

/-- Terms that resolve to one term are equal under every solution. -/
theorem mapVars_eq_of_resolve_eq (acyclic : s.Acyclic) (same : s.resolve a = s.resolve b)
    (solves : θ ∈ s.solutions) : a.mapVars θ = b.mapVars θ := by
  rw [← mapVars_resolve acyclic solves a, same, mapVars_resolve acyclic solves b]

theorem equality_eq (acyclic : s.Acyclic) (plain : s.WildcardFree) (left : a.WildcardFree)
    (right : b.WildcardFree) : equality .enabled s a b = .ok (s.standing a b) := by
  obtain ⟨result, outcome, returned⟩ := unify_outcome acyclic plain left right
  rw [equality, returned]
  cases result with
  | none =>
      have never : s.standing a b = .never := by
        rw [standing_eq_never acyclic]
        intro θ solves equal
        apply outcome {θ}
        · exact Set.singleton_subset_iff.mpr equal
        · exact ⟨Set.singleton_nonempty θ, Set.singleton_subset_iff.mpr solves⟩
      rw [never]
      rfl
  | some next =>
      obtain ⟨valid, extended, _, solved, _⟩ := outcome
      change next.Extends s at extended
      change next.solutions = s.solutions ∩ unifiers a b at solved
      change Except.ok _ = Except.ok _
      by_cases same : s.resolve a = s.resolve b
      · have holds : s.resolution ∈ next.solutions := by
          rw [solved]
          exact ⟨resolution_mem acyclic, same⟩
        rw [if_pos (size_eq_of_resolution_mem acyclic valid.1 extended holds),
          standing_eq_already.mpr same]
      · have larger : next.size ≠ s.size := by
          intro sizes
          have kept := resolution_mem acyclic
          rw [← solutions_eq_of_size_eq extended sizes, solved] at kept
          exact same kept.2
        have nonempty : (s.solutions ∩ unifiers a b).Nonempty := by
          rw [← solved]
          exact ⟨next.resolution, resolution_mem valid.1⟩
        rw [if_neg larger, standing, if_neg same, if_pos nonempty]

end Substitution

/-! ## Comparing several terms -/

section Comparisons

variable {verdict : Term → Equality} {test : Term → Except Unending Equality}

theorem stillPossible_eq : ∀ {ts : List Term}, (∀ t ∈ ts, test t = .ok (verdict t)) →
    stillPossible test ts = .ok (if ∃ t ∈ ts, verdict t = .already then none
      else some (ts.filter fun t => verdict t = .possible))
  | [], _ => by simp [stillPossible]; rfl
  | t :: ts, tests => by
      have rest := stillPossible_eq fun u member => tests u (List.mem_cons_of_mem t member)
      rw [stillPossible, tests t (List.mem_cons_self ..), rest]
      cases first : verdict t with
      | already => simp [first]; rfl
      | possible =>
          by_cases equal : ∃ u ∈ ts, verdict u = .already
          · simp [equal]; rfl
          · simp [first, equal]; rfl
      | never => simp [first]; rfl

theorem candidates_eq : ∀ {ts : List Term}, (∀ t ∈ ts, test t = .ok (verdict t)) →
    candidates test ts = .ok (ts.filter fun t => verdict t ≠ .never)
  | [], _ => rfl
  | t :: ts, tests => by
      have rest := candidates_eq fun u member => tests u (List.mem_cons_of_mem t member)
      rw [candidates, tests t (List.mem_cons_self ..), rest]
      cases first : verdict t <;> simp [first] <;> rfl

end Comparisons

/-- What comparing every two items gives. -/
def PairsJudged (verdict : Term → Term → Equality) (ts : List Term) : Option Bool → Prop
  | none => ¬ ts.Pairwise fun a b => verdict a b ≠ .already
  | some true => ts.Pairwise fun a b => verdict a b ≠ .already
  | some false => ts.Pairwise fun a b => verdict a b = .never

theorem pairsOpen_judged {verdict : Term → Term → Equality}
    {test : Term → Term → Except Unending Equality} :
    ∀ {ts : List Term}, (∀ a ∈ ts, ∀ b ∈ ts, test a b = .ok (verdict a b)) →
      ∃ result, pairsOpen test ts = .ok result ∧ PairsJudged verdict ts result
  | [], _ => ⟨some false, rfl, .nil⟩
  | t :: ts, tests => by
      have below : ∀ a ∈ ts, ∀ b ∈ ts, test a b = .ok (verdict a b) := fun a left b right =>
        tests a (List.mem_cons_of_mem t left) b (List.mem_cons_of_mem t right)
      have first : ∀ u ∈ ts, test t u = .ok (verdict t u) := fun u member =>
        tests t (List.mem_cons_self ..) u (List.mem_cons_of_mem t member)
      obtain ⟨later, returned, judged⟩ := pairsOpen_judged below
      rw [pairsOpen, stillPossible_eq first, returned]
      by_cases equal : ∃ u ∈ ts, verdict t u = .already
      · rw [if_pos equal]
        refine ⟨none, rfl, ?_⟩
        intro distinct
        obtain ⟨u, member, already⟩ := equal
        exact (List.pairwise_cons.mp distinct).1 u member already
      · rw [if_neg equal]
        have apart : ∀ u ∈ ts, verdict t u ≠ .already :=
          fun u member already => equal ⟨u, member, already⟩
        cases later with
        | none =>
            refine ⟨none, rfl, ?_⟩
            exact fun distinct => judged (List.pairwise_cons.mp distinct).2
        | some stillOpen =>
            refine ⟨_, rfl, ?_⟩
            have distinct : ts.Pairwise fun a b => verdict a b ≠ .already := by
              cases stillOpen with
              | true => exact judged
              | false => exact judged.imp fun never => by simp [never]
            cases possible : (ts.filter fun u => verdict t u = .possible).isEmpty with
            | false => exact .cons apart distinct
            | true =>
                cases stillOpen with
                | true => exact .cons apart distinct
                | false =>
                    apply List.Pairwise.cons _ judged
                    intro u member
                    rw [List.isEmpty_iff, List.filter_eq_nil_iff] at possible
                    have impossible := possible u member
                    have notAlready := apart u member
                    cases stands : verdict t u <;> simp_all

end RelationalSolver
