import Mathlib.Algebra.Order.Ring.Canonical
import Mathlib.Data.ENat.Basic
import RelationalSolver.Proofs.Goal.Bounds
import RelationalSolver.Proofs.Unification.Lawful

/-!
# Bounds limit numbers of answers

Under a set of assignments every goal has a number of answers that it does not exceed.
The number only falls when the set shrinks, and the bound of a goal, if it is finite and
not saturated, limits the number under the solutions of the bindings.
-/

namespace RelationalSolver

open Substitution

variable {s : Substitution} {Θ Λ : Set Assignment}

/-! ## Saturated products and sums -/

namespace SizeBound

variable {a b : SizeBound} {bounds : List SizeBound} {m n : ℕ∞} {numbers : List ℕ∞}

/-- The bound, unless it is saturated or there is none, limits the number. -/
def Limits (bound : SizeBound) (number : ℕ∞) : Prop :=
  ∀ count, bound.upper = some count → count < ceiling → number ≤ count

theorem limits_exact {count : Nat} (limited : m ≤ count) : (exact count).Limits m := by
  intro other same _
  cases same
  exact limited

theorem limits_atMost {count : Nat} (limited : m ≤ count) : (atMost count).Limits m := by
  intro other same _
  cases same
  exact limited

theorem limits_unbounded : unbounded.Limits m := nofun

theorem Limits.eq_zero (limits : a.Limits m) (zero : a.isZero = true) : m = 0 :=
  nonpos_iff_eq_zero.mp (limits 0 (of_decide_eq_true zero) (by decide))

theorem upper_eq_some_pos (positive : ¬ a.isZero = true) {count : Nat}
    (limit : a.upper = some count) : 0 < count := by
  rcases Nat.eq_zero_or_pos count with rfl | positiveCount
  · exact absurd (decide_eq_true limit) positive
  · exact positiveCount

/-- A finite product of bounds is zero, or what saturating leaves of the product of
finite bounds. -/
theorem upper_times {count : Nat} (limit : (a.times b).upper = some count) :
    a.isZero = true ∨ b.isZero = true ∨ ∃ i j, a.upper = some i ∧ b.upper = some j ∧ 0 < i ∧ 0 < j ∧
      count = saturate (i * j) := by
  by_cases zeroLeft : a.isZero = true
  · exact .inl zeroLeft
  by_cases zeroRight : b.isZero = true
  · exact .inr (.inl zeroRight)
  refine .inr (.inr ?_)
  have nonzero : ¬ (a.isZero || b.isZero) = true := by simp [zeroLeft, zeroRight]
  rw [times.eq_def, if_neg nonzero] at limit
  have positive : ∀ i j, a.upper = some i → b.upper = some j → count = saturate (i * j) →
      ∃ i j, a.upper = some i ∧ b.upper = some j ∧ 0 < i ∧ 0 < j ∧ count = saturate (i * j) :=
    fun i j left right same =>
      ⟨i, j, left, right, upper_eq_some_pos zeroLeft left, upper_eq_some_pos zeroRight right, same⟩
  cases a <;> cases b <;> first | cases limit; exact positive _ _ rfl rfl rfl | cases limit

theorem upper_plus {count : Nat} (limit : (a.plus b).upper = some count) :
    ∃ i j, a.upper = some i ∧ b.upper = some j ∧ count = saturate (i + j) := by
  cases a <;> cases b <;> first | cases limit; exact ⟨_, _, rfl, rfl, rfl⟩ | cases limit

theorem saturate_lt {count : Nat} (below : saturate count < ceiling) :
    saturate count = count ∧ count < ceiling := by
  rw [saturate] at below ⊢
  omega

theorem Limits.times (left : a.Limits m) (right : b.Limits n) : (a.times b).Limits (m * n) := by
  intro count limit below
  rcases upper_times limit with zero | zero | ⟨i, j, limitLeft, limitRight, posLeft, posRight, rfl⟩
  · rw [left.eq_zero zero, zero_mul]
    exact zero_le
  · rw [right.eq_zero zero, mul_zero]
    exact zero_le
  · obtain ⟨exactly, below⟩ := saturate_lt below
    rw [exactly, Nat.cast_mul]
    have belowLeft : i < ceiling := (Nat.le_mul_of_pos_right i posRight).trans_lt below
    have belowRight : j < ceiling := (Nat.le_mul_of_pos_left j posLeft).trans_lt below
    exact mul_le_mul' (left i limitLeft belowLeft) (right j limitRight belowRight)

theorem Limits.plus (left : a.Limits m) (right : b.Limits n) : (a.plus b).Limits (m + n) := by
  intro count limit below
  rcases upper_plus limit with ⟨i, j, limitLeft, limitRight, rfl⟩
  obtain ⟨exactly, below⟩ := saturate_lt below
  rw [exactly, Nat.cast_add]
  exact add_le_add (left i limitLeft (by omega)) (right j limitRight (by omega))

/-- What relates bounds to numbers, factor by factor, relates the products. -/
theorem product_related {N : Type*} [Monoid N] {R : SizeBound → N → Prop} {numbers : List N}
    (one : R (.exact 1) 1) (times : ∀ {a b m n}, R a m → R b n → R (a.times b) (m * n))
    (related : List.Forall₂ R bounds numbers) : R (product bounds) numbers.prod := by
  have each : ∀ (start : SizeBound) (number : N), R start number →
      R (bounds.foldl SizeBound.times start) (number * numbers.prod) := by
    induction related with
    | nil =>
        intro start number first
        rw [List.prod_nil, mul_one]
        exact first
    | cons here _ ih =>
        intro start number first
        rw [List.prod_cons, ← mul_assoc]
        exact ih _ _ (times first here)
  rw [← one_mul numbers.prod]
  exact each (.exact 1) 1 one

/-- What relates bounds to numbers, summand by summand, relates the sums. -/
theorem sum_related {N : Type*} [AddMonoid N] {R : SizeBound → N → Prop} {numbers : List N}
    (zero : R (.exact 0) 0) (plus : ∀ {a b m n}, R a m → R b n → R (a.plus b) (m + n))
    (related : List.Forall₂ R bounds numbers) : R (sum bounds) numbers.sum := by
  have each : ∀ (start : SizeBound) (number : N), R start number →
      R (bounds.foldl SizeBound.plus start) (number + numbers.sum) := by
    induction related with
    | nil =>
        intro start number first
        rw [List.sum_nil, add_zero]
        exact first
    | cons here _ ih =>
        intro start number first
        rw [List.sum_cons, ← add_assoc]
        exact ih _ _ (plus first here)
  rw [← zero_add numbers.sum]
  exact each (.exact 0) 0 zero

theorem limits_product (limits : List.Forall₂ Limits bounds numbers) :
    (product bounds).Limits numbers.prod :=
  product_related (limits_exact (by simp)) Limits.times limits

theorem limits_sum (limits : List.Forall₂ Limits bounds numbers) :
    (sum bounds).Limits numbers.sum :=
  sum_related (limits_exact (by simp)) Limits.plus limits

end SizeBound

/-! ## Counting rows -/

open Classical in
/-- One if an assignment is left, and zero otherwise. -/
noncomputable def someLeft (Θ : Set Assignment) : ℕ∞ := if Θ.Nonempty then 1 else 0

theorem someLeft_of_nonempty (left : Θ.Nonempty) : someLeft Θ = 1 := if_pos left

theorem someLeft_of_empty (none : Θ = ∅) : someLeft Θ = 0 :=
  if_neg (Set.not_nonempty_iff_eq_empty.mpr none)

theorem someLeft_le_one (Θ : Set Assignment) : someLeft Θ ≤ 1 := by
  rw [someLeft]
  split
  · exact le_rfl
  · exact zero_le

theorem someLeft_mono (less : Λ ⊆ Θ) : someLeft Λ ≤ someLeft Θ := by
  rcases Set.eq_empty_or_nonempty Λ with none | left
  · rw [someLeft_of_empty none]
    exact zero_le
  · rw [someLeft_of_nonempty (left.mono less)]
    exact someLeft_le_one Λ

open Classical in
/-- How many of the rows the arguments can become under some of the assignments. -/
noncomputable def fitting (Θ : Set Assignment) (args : List Term) (rows : List Row) : Nat :=
  rows.countP fun row => (Θ ∩ pairUnifiers args row).Nonempty

@[simp] theorem fitting_nil (args : List Term) : fitting Θ args [] = 0 := rfl

theorem fitting_cons_of_nonempty {args : List Term} {row : Row} (rows : List Row)
    (meets : (Θ ∩ pairUnifiers args row).Nonempty) :
    fitting Θ args (row :: rows) = fitting Θ args rows + 1 := by
  classical
  exact List.countP_cons_of_pos (decide_eq_true meets)

theorem fitting_le_fitting_cons (args : List Term) (row : Row) (rows : List Row) :
    fitting Θ args rows ≤ fitting Θ args (row :: rows) := by
  classical
  rw [fitting, fitting, List.countP_cons]
  exact Nat.le_add_right _ _

theorem fitting_mono (less : Λ ⊆ Θ) (args : List Term) (rows : List Row) :
    fitting Λ args rows ≤ fitting Θ args rows := by
  classical
  apply List.countP_mono_left
  intro row _ meets
  exact decide_eq_true ((of_decide_eq_true meets).mono (Set.inter_subset_inter_left _ less))

theorem fitting_perm {args : List Term} {rows others : List Row} (same : rows.Perm others) :
    fitting Θ args rows = fitting Θ args others := by
  classical
  exact same.countP_eq _

theorem fitting_filter_le (keep : Row → Bool) (args : List Term) (rows : List Row) :
    fitting Θ args (rows.filter keep) ≤ fitting Θ args rows := by
  classical
  exact List.filter_sublist.countP_le

/-- The rows that agree with the pattern are as many as can fit. -/
theorem Application.fitting_le_matching {a : Application} {facts : FactTable} {arity : Nat}
    {rows : List Row} (acyclic : s.Acyclic) (made : FactTable.ofRows arity rows = .ok facts) :
    fitting s.solutions a.args facts.rows.toList ≤ (facts.matching (a.pattern s)).length := by
  classical
  have wellFormed := FactTable.wellFormed_of_ofRows made
  rw [wellFormed.matching_eq, ← List.countP_eq_length_filter]
  apply List.countP_mono_left
  intro row member meets
  obtain ⟨θ, solves, equal⟩ := of_decide_eq_true meets
  by_contra apart
  exact Application.not_pairUnifiers_of_not_agrees acyclic solves
    (wellFormed.ground row member) (Bool.eq_false_iff.mpr apart) equal

/-! ## Counting answers -/

namespace Goal

mutual

/-- A number of answers that the goal does not exceed under the assignments.  Goals that
are not sized have no such number. -/
noncomputable def most (Θ : Set Assignment) : Goal → ℕ∞
  | .succeed => 1
  | .fail => 0
  | .equal a b => someLeft (Θ ∩ unifiers a b)
  | .conj goals _ => (mosts Θ goals).prod
  | .disj goals _ => (mosts Θ goals).sum
  | .relation a =>
      match a.relation.source.listing with
      | some rows => fitting Θ a.args rows
      | none => ⊤
  | .constrain _ | .fresh _ _ | .delay _ | .call _ _ | .abort _ | .yieldThenAbort _ => ⊤

/-- The numbers of several goals. -/
noncomputable def mosts (Θ : Set Assignment) : List Goal → List ℕ∞
  | [] => []
  | g :: gs => g.most Θ :: mosts Θ gs

end

@[simp] theorem mosts_eq (goals : List Goal) : mosts Θ goals = goals.map (most Θ) := by
  induction goals with
  | nil => rfl
  | cons g goals ih => rw [mosts, ih, List.map_cons]

theorem most_conj (goals : List Goal) (constraints : List Constraint) :
    (Goal.conj goals constraints).most Θ = (goals.map (most Θ)).prod := by
  rw [most, mosts_eq]

theorem most_disj (goals : List Goal) (constraints : List Constraint) :
    (Goal.disj goals constraints).most Θ = (goals.map (most Θ)).sum := by
  rw [most, mosts_eq]

theorem most_relation {a : Application} {facts : FactTable}
    (source : a.relation.source = .table facts) :
    (Goal.relation a).most Θ = fitting Θ a.args facts.rows.toList := by
  rw [most, source, FactSource.listing_table]

mutual

/-- Fewer assignments leave no more answers. -/
theorem most_mono (less : Λ ⊆ Θ) : ∀ g : Goal, g.most Λ ≤ g.most Θ
  | .equal a b => by
      rw [most, most]
      exact someLeft_mono (Set.inter_subset_inter_left _ less)
  | .conj goals _ => by
      rw [most, most]
      exact (mosts_mono less goals).prod_le_prod'
  | .disj goals _ => by
      rw [most, most]
      exact (mosts_mono less goals).sum_le_sum
  | .relation a => by
      rw [most, most]
      split
      · exact Nat.cast_le.mpr (fitting_mono less _ _)
      · exact le_rfl
  | .succeed | .fail | .constrain _ | .fresh _ _ | .delay _ | .call _ _ | .abort _
  | .yieldThenAbort _ => le_rfl

theorem mosts_mono (less : Λ ⊆ Θ) : ∀ goals : List Goal,
    List.Forall₂ (· ≤ ·) (mosts Λ goals) (mosts Θ goals)
  | [] => .nil
  | g :: gs => .cons (most_mono less g) (mosts_mono less gs)

end

/-- The product over several goals falls as well. -/
theorem prod_most_mono (less : Λ ⊆ Θ) (goals : List Goal) :
    (goals.map (most Λ)).prod ≤ (goals.map (most Θ)).prod := by
  rw [← mosts_eq, ← mosts_eq]
  exact (mosts_mono less goals).prod_le_prod'

mutual

/-- The bound of a plain goal limits its number of answers under the bindings. -/
theorem limits_bound (acyclic : s.Acyclic) : ∀ (g : Goal) (b : SizeBound), g.Plain →
    g.bound s = .ok b → b.Limits (g.most s.solutions)
  | .succeed, _, _, bounded => by
      cases bounded
      exact SizeBound.limits_exact (by simp [most])
  | .fail, _, _, bounded => by
      cases bounded
      exact SizeBound.limits_exact (by simp [most])
  | .equal x y, b, _, bounded => by
      rw [bound] at bounded
      rw [most]
      cases attempt : s.unify .disabled x y with
      | error e =>
          rw [attempt] at bounded
          cases bounded
      | ok result =>
          rw [attempt] at bounded
          cases result with
          | none =>
              cases bounded
              have apart : s.solutions ∩ unifiers x y = ∅ := by
                apply Set.eq_empty_of_forall_notMem
                rintro θ ⟨solves, equal⟩
                exact ne_of_unify_eq_none acyclic attempt solves equal
              exact SizeBound.limits_exact (someLeft_of_empty apart).le
          | some next =>
              cases bounded
              exact SizeBound.limits_atMost (by simpa using someLeft_le_one _)
  | .conj goals _, b, plain, bounded => by
      rw [bound] at bounded
      rw [most]
      cases each : bounds s goals with
      | error e =>
          rw [each] at bounded
          cases bounded
      | ok list =>
          rw [each] at bounded
          cases bounded
          exact SizeBound.limits_product (limits_bounds acyclic goals list plain each)
  | .disj goals _, b, plain, bounded => by
      rw [bound] at bounded
      rw [most]
      cases each : bounds s goals with
      | error e =>
          rw [each] at bounded
          cases bounded
      | ok list =>
          rw [each] at bounded
          cases bounded
          exact SizeBound.limits_sum (limits_bounds acyclic goals list plain each)
  | .relation a, b, plain, bounded => by
      cases bounded
      rcases plain.1 with ⟨facts, arity, rows, source, made⟩
      rw [most_relation source, Application.bound, source]
      exact SizeBound.limits_exact (Nat.cast_le.mpr (Application.fitting_le_matching acyclic made))
  | .constrain _, _, _, bounded => by
      cases bounded
      exact SizeBound.limits_unbounded
  | .fresh _ _, _, _, bounded => by
      cases bounded
      exact SizeBound.limits_unbounded
  | .delay _, _, _, bounded => by
      cases bounded
      exact SizeBound.limits_unbounded
  | .call _ _, _, _, bounded => by
      cases bounded
      exact SizeBound.limits_unbounded
  | .abort _, _, _, bounded => by
      cases bounded
      exact SizeBound.limits_unbounded
  | .yieldThenAbort _, _, _, bounded => by
      cases bounded
      exact SizeBound.limits_unbounded

/-- The bounds of several goals limit their numbers one by one. -/
theorem limits_bounds (acyclic : s.Acyclic) : ∀ (goals : List Goal) (list : List SizeBound),
    AllPlain goals → bounds s goals = .ok list →
      List.Forall₂ SizeBound.Limits list (mosts s.solutions goals)
  | [], _, _, bounded => by
      cases bounded
      exact .nil
  | g :: goals, list, plain, bounded => by
      rw [bounds] at bounded
      cases first : bound s g with
      | error e =>
          rw [first] at bounded
          cases bounded
      | ok b =>
          rw [first] at bounded
          cases rest : bounds s goals with
          | error e =>
              rw [rest] at bounded
              cases bounded
          | ok later =>
              rw [rest] at bounded
              cases bounded
              exact .cons (limits_bound acyclic g b plain.1 first)
                (limits_bounds acyclic goals later plain.2 rest)

end

end Goal

end RelationalSolver
