import RelationalSolver.Proofs.Goal.Proper
import RelationalSolver.Proofs.Unification.Unchecked

/-!
# Bounds of zero are right

If the bound of a proper goal is zero, its equations and tables exclude every
assignment that makes the bindings hold.
-/

namespace RelationalSolver

namespace SizeBound

variable {a b : SizeBound} {bounds : List SizeBound}

theorem isZero_exact {count : Nat} : (exact count).isZero = true ↔ count = 0 := by
  simp [isZero, upper]

theorem isZero_atMost {count : Nat} : (atMost count).isZero = true ↔ count = 0 := by
  simp [isZero, upper]

theorem isZero_unbounded : unbounded.isZero = false := by
  simp [isZero, upper]

theorem saturate_eq_zero {count : Nat} : saturate count = 0 ↔ count = 0 := by
  simp only [saturate, ceiling]
  omega

theorem isZero_times (zero : (a.times b).isZero = true) : a.isZero = true ∨ b.isZero = true := by
  unfold times at zero
  split at zero
  · rename_i either
    simpa using either
  · cases a <;> cases b <;> simp_all [isZero_exact, isZero_atMost, saturate_eq_zero]

theorem isZero_plus (zero : (a.plus b).isZero = true) : a.isZero = true ∧ b.isZero = true := by
  cases a <;> cases b <;> simp_all [plus, isZero_exact, isZero_atMost, isZero_unbounded,
    saturate_eq_zero]

/-- A product is zero only if a factor is. -/
theorem exists_isZero_of_product (zero : (product bounds).isZero = true) :
    ∃ b ∈ bounds, b.isZero = true := by
  have each : ∀ (bounds : List SizeBound) (start : SizeBound),
      (bounds.foldl times start).isZero = true →
        start.isZero = true ∨ ∃ b ∈ bounds, b.isZero = true := by
    intro bounds
    induction bounds with
    | nil => exact fun start zero => .inl zero
    | cons b bounds ih =>
        intro start zero
        rcases ih (start.times b) zero with here | ⟨c, member, there⟩
        · rcases isZero_times here with here | here
          · exact .inl here
          · exact .inr ⟨b, List.mem_cons_self, here⟩
        · exact .inr ⟨c, List.mem_cons_of_mem b member, there⟩
  exact (each bounds (.exact 1) zero).resolve_left (by decide)

theorem times_isZero (zero : a.isZero = true ∨ b.isZero = true) : (a.times b).isZero = true := by
  unfold times
  split
  · exact isZero_exact.mpr rfl
  · rename_i neither
    exact absurd (Bool.or_eq_true_iff.mpr zero) neither

/-- A product is zero if a factor is. -/
theorem product_isZero (member : b ∈ bounds) (zero : b.isZero = true) :
    (product bounds).isZero = true := by
  have each : ∀ (bounds : List SizeBound) (start : SizeBound),
      (start.isZero = true ∨ ∃ b ∈ bounds, b.isZero = true) →
        (bounds.foldl times start).isZero = true := by
    intro bounds
    induction bounds with
    | nil => exact fun start either => either.resolve_right nofun
    | cons c bounds ih =>
        intro start either
        apply ih (start.times c)
        cases either with
        | inl here => exact .inl (times_isZero (.inl here))
        | inr there =>
            rcases List.exists_mem_cons_iff _ _ _ |>.mp there with here | later
            · exact .inl (times_isZero (.inr here))
            · exact .inr later
  exact each bounds (.exact 1) (.inr ⟨b, member, zero⟩)

/-- A sum is zero only if all terms are. -/
theorem isZero_of_sum (zero : (sum bounds).isZero = true) : ∀ b ∈ bounds, b.isZero = true := by
  have each : ∀ (bounds : List SizeBound) (start : SizeBound),
      (bounds.foldl plus start).isZero = true →
        start.isZero = true ∧ ∀ b ∈ bounds, b.isZero = true := by
    intro bounds
    induction bounds with
    | nil => exact fun start zero => ⟨zero, nofun⟩
    | cons b bounds ih =>
        intro start zero
        rcases ih (start.plus b) zero with ⟨here, there⟩
        exact ⟨(isZero_plus here).1, List.forall_mem_cons.mpr ⟨(isZero_plus here).2, there⟩⟩
  exact (each bounds (.exact 0) zero).2

end SizeBound

open Substitution

variable {s : Substitution} {θ : Assignment}

namespace Application

variable {a : Application} {facts : FactTable}

/-- The arguments with their values agree with what is asked of the table. -/
theorem pattern_agrees (acyclic : s.Acyclic) (solves : θ ∈ s.solutions) :
    (a.pattern s).agrees (a.args.map (·.mapVars θ)) = true := by
  rw [Pattern.agrees_iff]
  intro column value found asks stands
  rw [pattern, List.getElem?_map, Option.map_eq_some_iff] at asks
  rcases asks with ⟨arg, here, asked⟩
  rw [List.getElem?_map, here] at stands
  cases stands
  dsimp only at asked
  split at asked
  · rename_i ground
    cases asked
    dsimp only
    rw [← mapVars_resolve acyclic solves arg, Term.mapVars_of_isGround θ ground]
  · cases asked

/-- A row that does not agree with the pattern cannot be equal to the arguments. -/
theorem not_pairUnifiers_of_not_agrees (acyclic : s.Acyclic) (solves : θ ∈ s.solutions) {row : Row}
    (ground : ∀ t ∈ row, t.isGround = true) (apart : (a.pattern s).agrees row = false) :
    a.args.map (·.mapVars θ) ≠ row.map (·.mapVars θ) := by
  intro equal
  have same : row.map (·.mapVars θ) = row := by
    conv_rhs => rw [← List.map_id row]
    exact List.map_congr_left fun t member => Term.mapVars_of_isGround θ (ground t member)
  have agrees := pattern_agrees (a := a) acyclic solves
  rw [equal, same, apart] at agrees
  cases agrees

theorem not_admits_of_bound (acyclic : s.Acyclic) (proper : a.Proper)
    (zero : (a.bound s).isZero = true) (solves : θ ∈ s.solutions) : ¬ a.Admits θ := by
  rcases proper.1 with ⟨facts, arity, rows, source, made⟩
  have wellFormed := FactTable.wellFormed_of_ofRows made
  simp only [bound, source, FactSource.bound_table, wellFormed.matching_eq, SizeBound.isZero_exact,
    List.length_eq_zero_iff, List.filter_eq_nil_iff] at zero
  rw [admits_iff source]
  intro inside
  exact zero _ inside (pattern_agrees acyclic solves)

end Application

namespace Goal

mutual

/-- A goal whose bound is zero excludes every solution. -/
theorem not_admits_of_bound (acyclic : s.Acyclic) (solves : θ ∈ s.solutions) :
    ∀ (g : Goal) (b : SizeBound), g.Proper → g.bound s = .ok b → b.isZero = true → ¬ g.Admits θ
  | .succeed, b, _, bounded, zero => by
      cases bounded
      cases zero
  | .fail, _, _, _, _ => nofun
  | .equal x y, b, _, bounded, zero => by
      rw [bound] at bounded
      cases attempt : s.unify .disabled x y with
      | error e =>
          rw [attempt] at bounded
          cases bounded
      | ok result =>
          rw [attempt] at bounded
          cases result with
          | none => exact ne_of_unify_eq_none acyclic attempt solves
          | some next =>
              cases bounded
              cases zero
  | .conj goals _, b, proper, bounded, zero => by
      rw [bound] at bounded
      cases each : bounds s goals with
      | error e =>
          rw [each] at bounded
          cases bounded
      | ok list =>
          rw [each] at bounded
          cases bounded
          rcases SizeBound.exists_isZero_of_product zero with ⟨c, member, zero⟩
          have sound := forall₂_of_bounds acyclic solves goals list proper.1 each
          rcases List.forall₂_iff_get.mp sound with ⟨lengths, sound⟩
          rcases List.get_of_mem member with ⟨⟨i, bound⟩, rfl⟩
          have inside : i < goals.length := lengths ▸ bound
          intro admits
          rw [Admits, allAdmit_iff] at admits
          exact sound i inside bound zero (admits _ (List.get_mem goals ⟨i, inside⟩))
  | .disj goals _, b, proper, bounded, zero => by
      rw [bound] at bounded
      cases each : bounds s goals with
      | error e =>
          rw [each] at bounded
          cases bounded
      | ok list =>
          rw [each] at bounded
          cases bounded
          have zeros := SizeBound.isZero_of_sum zero
          have sound := forall₂_of_bounds acyclic solves goals list proper.1 each
          rcases List.forall₂_iff_get.mp sound with ⟨lengths, sound⟩
          intro admits
          rw [Admits, someAdmits_iff] at admits
          rcases admits with ⟨g, member, admits⟩
          rcases List.get_of_mem member with ⟨⟨i, bound⟩, rfl⟩
          have inside : i < list.length := lengths ▸ bound
          exact sound i bound inside (zeros _ (List.get_mem list ⟨i, inside⟩)) admits
  | .relation a, b, proper, bounded, zero => by
      cases bounded
      exact Application.not_admits_of_bound acyclic proper zero solves
  | .constrain _, b, _, bounded, zero => by
      cases bounded
      cases zero
  | .fresh _ _, b, _, bounded, zero => by
      cases bounded
      cases zero
  | .delay _, b, _, bounded, zero => by
      cases bounded
      cases zero
  | .call _ _, b, _, bounded, zero => by
      cases bounded
      cases zero
  | .abort _, b, _, bounded, zero => by
      cases bounded
      cases zero
  | .yieldThenAbort _, b, _, bounded, zero => by
      cases bounded
      cases zero

/-- The bounds of several goals belong to the goals one by one. -/
theorem forall₂_of_bounds (acyclic : s.Acyclic) (solves : θ ∈ s.solutions) :
    ∀ (goals : List Goal) (list : List SizeBound), AllProper goals → bounds s goals = .ok list →
      List.Forall₂ (fun g b => b.isZero = true → ¬ g.Admits θ) goals list
  | [], _, _, bounded => by
      cases bounded
      exact .nil
  | g :: goals, list, proper, bounded => by
      rw [bounds] at bounded
      cases first : bound s g with
      | error e =>
          rw [first] at bounded
          cases bounded
      | ok b =>
          rw [first] at bounded
          cases rest : bounds s goals with
          | error e =>
              rw [rest] at bounded
              cases bounded
          | ok later =>
              rw [rest] at bounded
              cases bounded
              exact .cons (not_admits_of_bound acyclic solves g b proper.1 first)
                (forall₂_of_bounds acyclic solves goals later proper.2 rest)

end

end Goal

end RelationalSolver
