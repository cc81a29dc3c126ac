import Mathlib.Data.ENat.Basic
import Mathlib.Data.List.Induction
import Mathlib.Algebra.BigOperators.Ring.Finset
import Mathlib.Algebra.BigOperators.Ring.List
import RelationalSolver.Proofs.Goal.Bounds

/-!
# Saturated products and sums

The limit of a bound is a number that may be infinite.  Among these numbers zero times infinity
is zero, just as a bound of zero wins over a missing limit, and it makes no difference whether
numbers are cut off at the ceiling before they are combined or only afterwards.  So products and
sums of bounds are read from the true products and sums, and neither the order of the bounds nor
their grouping matters.
-/

namespace RelationalSolver.SizeBound

variable {a b : SizeBound} {bounds others : List SizeBound}

/-- The limit as a number, infinite if there is none. -/
def limit : SizeBound → ℕ∞
  | .exact count => count
  | .atMost count => count
  | .unbounded => ⊤

@[simp] theorem limit_exact (count : ℕ) : limit (.exact count) = count := rfl

@[simp] theorem limit_atMost (count : ℕ) : limit (.atMost count) = count := rfl

@[simp] theorem limit_unbounded : limit .unbounded = ⊤ := rfl

/-- The number, or the ceiling if it is finite and above the ceiling. -/
def cutOff (n : ℕ∞) : ℕ∞ := ENat.map saturate n

/-! ## Cutting off -/

@[simp] theorem cutOff_top : cutOff ⊤ = ⊤ := rfl

@[simp] theorem cutOff_coe (count : ℕ) : cutOff count = (saturate count : ℕ) := rfl

@[simp] theorem cutOff_zero : cutOff 0 = 0 := cutOff_coe 0

theorem saturate_mul (i j : ℕ) : saturate (saturate i * j) = saturate (i * j) := by
  rcases Nat.eq_zero_or_pos j with rfl | positive
  · simp
  rcases Nat.le_total i ceiling with small | large
  · simp [saturate, small]
  · have saturated : ceiling ≤ ceiling * j := Nat.le_mul_of_pos_right _ positive
    have above : ceiling ≤ i * j := saturated.trans (Nat.mul_le_mul_right j large)
    simp [saturate, large, saturated, above]

theorem saturate_add (i j : ℕ) : saturate (saturate i + j) = saturate (i + j) := by
  simp only [saturate]
  omega

theorem cutOff_mul (m n : ℕ∞) : cutOff (cutOff m * n) = cutOff (m * n) := by
  induction m using ENat.recTopCoe with
  | top => simp
  | coe i =>
      induction n using ENat.recTopCoe with
      | top => by_cases zero : i = 0 <;> simp [zero, saturate_eq_zero]
      | coe j =>
          rw [cutOff_coe, ← Nat.cast_mul, ← Nat.cast_mul, cutOff_coe, cutOff_coe, saturate_mul]

theorem cutOff_mul_cutOff (m n : ℕ∞) : cutOff (cutOff m * cutOff n) = cutOff (m * n) := by
  rw [cutOff_mul, mul_comm, cutOff_mul, mul_comm]

theorem cutOff_add (m n : ℕ∞) : cutOff (cutOff m + n) = cutOff (m + n) := by
  induction m using ENat.recTopCoe with
  | top => simp
  | coe i =>
      induction n using ENat.recTopCoe with
      | top => simp
      | coe j =>
          rw [cutOff_coe, ← Nat.cast_add, ← Nat.cast_add, cutOff_coe, cutOff_coe, saturate_add]

theorem cutOff_add_cutOff (m n : ℕ∞) : cutOff (cutOff m + cutOff n) = cutOff (m + n) := by
  rw [cutOff_add, add_comm, cutOff_add, add_comm]

/-! ## Limits and exactness -/

/-- A bound is told by its limit and by whether it is exact. -/
theorem eq_of_limit_eq (limits : a.limit = b.limit) (exactness : a.isExact = b.isExact) :
    a = b := by
  cases a <;> cases b <;> simp_all [limit, isExact]

theorem limit_eq_zero : a.limit = 0 ↔ a.isZero = true := by
  cases a <;> simp [limit, isZero, upper]

theorem times_of_isZero (zero : (a.isZero || b.isZero) = true) : a.times b = .exact 0 := by
  rw [times.eq_def, if_pos zero]

theorem limit_times : (a.times b).limit = cutOff (a.limit * b.limit) := by
  by_cases zero : (a.isZero || b.isZero) = true
  · have none : a.limit * b.limit = 0 := by simpa [limit_eq_zero] using zero
    simp [times_of_isZero zero, none]
  · have positive : a.limit ≠ 0 ∧ b.limit ≠ 0 := by simpa [limit_eq_zero] using zero
    rw [times.eq_def, if_neg zero]
    cases a with
    | unbounded =>
        rw [limit_unbounded, ENat.top_mul positive.2]
        cases b <;> rfl
    | exact i | atMost i =>
        cases b with
        | unbounded =>
            rw [limit_unbounded, ENat.mul_top positive.1]
            rfl
        | exact j | atMost j =>
            simp only [limit_exact, limit_atMost, ← Nat.cast_mul, cutOff_coe]

theorem isExact_times :
    (a.times b).isExact = (a.isExact && b.isExact || (a.isZero || b.isZero)) := by
  by_cases zero : (a.isZero || b.isZero) = true
  · simp [times_of_isZero zero, zero, isExact]
  · rw [times.eq_def, if_neg zero, Bool.eq_false_iff.mpr zero]
    cases a <;> cases b <;> rfl

theorem limit_plus : (a.plus b).limit = cutOff (a.limit + b.limit) := by
  cases a <;> cases b <;> simp [plus, limit, ← Nat.cast_add]

theorem isExact_plus : (a.plus b).isExact = (a.isExact && b.isExact) := by
  cases a <;> cases b <;> rfl

/-! ## Products and sums of lists -/

theorem product_concat (bounds : List SizeBound) (b : SizeBound) :
    product (bounds ++ [b]) = (product bounds).times b := by
  simp [product]

theorem sum_concat (bounds : List SizeBound) (b : SizeBound) :
    sum (bounds ++ [b]) = (sum bounds).plus b := by
  simp [sum]

theorem limit_product (bounds : List SizeBound) :
    (product bounds).limit = cutOff (bounds.map limit).prod := by
  induction bounds using List.reverseRecOn with
  | nil => rfl
  | append_singleton bounds b ih => simp [product_concat, limit_times, ih, cutOff_mul]

theorem limit_sum (bounds : List SizeBound) :
    (sum bounds).limit = cutOff (bounds.map limit).sum := by
  induction bounds using List.reverseRecOn with
  | nil => rfl
  | append_singleton bounds b ih => simp [sum_concat, limit_plus, ih, cutOff_add]

/-- A product is zero exactly if a factor is. -/
theorem isZero_product (bounds : List SizeBound) : (product bounds).isZero = bounds.any isZero := by
  rw [Bool.eq_iff_iff, List.any_eq_true]
  exact ⟨exists_isZero_of_product, fun ⟨_, member, zero⟩ => product_isZero member zero⟩

theorem isExact_product (bounds : List SizeBound) :
    (product bounds).isExact = (bounds.all isExact || bounds.any isZero) := by
  induction bounds using List.reverseRecOn with
  | nil => rfl
  | append_singleton bounds b ih =>
      rw [product_concat, isExact_times, ih, isZero_product]
      simp only [List.all_append, List.all_cons, List.all_nil, List.any_append, List.any_cons,
        List.any_nil]
      grind

theorem isExact_sum (bounds : List SizeBound) : (sum bounds).isExact = bounds.all isExact := by
  induction bounds using List.reverseRecOn with
  | nil => rfl
  | append_singleton bounds b ih => simp [sum_concat, isExact_plus, ih]

/-! ## Order and grouping -/

theorem product_append (left right : List SizeBound) :
    product (left ++ right) = (product left).times (product right) := by
  apply eq_of_limit_eq
  · simp only [limit_product, limit_times, List.map_append, List.prod_append, cutOff_mul_cutOff]
  · simp only [isExact_product, isExact_times, isZero_product, List.all_append, List.any_append]
    grind

theorem sum_append (left right : List SizeBound) :
    sum (left ++ right) = (sum left).plus (sum right) := by
  apply eq_of_limit_eq
  · simp only [limit_sum, limit_plus, List.map_append, List.sum_append, cutOff_add_cutOff]
  · simp [isExact_sum, isExact_plus]

theorem product_flatten (groups : List (List SizeBound)) :
    product (groups.map product) = product groups.flatten := by
  induction groups using List.reverseRecOn with
  | nil => rfl
  | append_singleton groups group ih =>
      rw [List.map_append, List.map_singleton, product_concat, ih, List.flatten_append,
        List.flatten_singleton, product_append]

theorem sum_flatten (groups : List (List SizeBound)) :
    sum (groups.map sum) = sum groups.flatten := by
  induction groups using List.reverseRecOn with
  | nil => rfl
  | append_singleton groups group ih =>
      rw [List.map_append, List.map_singleton, sum_concat, ih, List.flatten_append,
        List.flatten_singleton, sum_append]

theorem product_perm (same : others.Perm bounds) : product others = product bounds := by
  apply eq_of_limit_eq
  · rw [limit_product, limit_product, (same.map limit).prod_eq]
  · rw [isExact_product, isExact_product, same.all_eq, same.any_eq]

theorem sum_perm (same : others.Perm bounds) : sum others = sum bounds := by
  apply eq_of_limit_eq
  · rw [limit_sum, limit_sum, (same.map limit).sum_eq]
  · rw [isExact_sum, isExact_sum, same.all_eq]

/-! ## Closed forms -/

/-- The limits of the bounds that have one. -/
def counts (bounds : List SizeBound) : List ℕ := bounds.filterMap upper

/-- The bound with a limit. -/
def limited (exactly : Bool) (count : ℕ) : SizeBound :=
  if exactly then .exact count else .atMost count

@[simp] theorem limit_limited (exactly : Bool) (count : ℕ) :
    (limited exactly count).limit = count := by
  cases exactly <;> rfl

@[simp] theorem isExact_limited (exactly : Bool) (count : ℕ) :
    (limited exactly count).isExact = exactly := by
  cases exactly <;> rfl

theorem map_limit_of_limited (finite : .unbounded ∉ bounds) :
    bounds.map limit = (counts bounds).map Nat.cast := by
  induction bounds with
  | nil => rfl
  | cons b bounds ih =>
      have later : .unbounded ∉ bounds := fun member => finite (List.mem_cons_of_mem b member)
      cases b with
      | unbounded => exact absurd List.mem_cons_self finite
      | exact count | atMost count => simpa [counts, upper] using ih later

theorem prod_map_limit_of_unbounded (positive : bounds.any isZero = false)
    (infinite : .unbounded ∈ bounds) : (bounds.map limit).prod = ⊤ := by
  obtain ⟨before, after, rfl⟩ := List.append_of_mem infinite
  have nonzero : ∀ part : List SizeBound, part.any isZero = false → (part.map limit).prod ≠ 0 := by
    intro part positive
    rw [ne_eq, List.prod_eq_zero_iff]
    simpa [limit_eq_zero] using positive
  simp only [List.any_append, List.any_cons, Bool.or_eq_false_iff] at positive
  rw [List.map_append, List.map_cons, List.prod_append, List.prod_cons, limit_unbounded,
    ENat.top_mul (nonzero after positive.2.2), ENat.mul_top (nonzero before positive.1)]

theorem product_eq (bounds : List SizeBound) :
    product bounds =
      if bounds.any isZero then .exact 0
      else if .unbounded ∈ bounds then .unbounded
      else limited (bounds.all isExact) (min (counts bounds).prod ceiling) := by
  apply eq_of_limit_eq
  · rw [limit_product]
    split
    · rename_i zero
      have none : (bounds.map limit).prod = 0 := by
        rw [List.prod_eq_zero_iff]
        simpa [limit_eq_zero] using zero
      rw [none]
      rfl
    · rename_i positive
      split
      · rename_i infinite
        rw [prod_map_limit_of_unbounded (Bool.eq_false_iff.mpr positive) infinite]
        rfl
      · rename_i finite
        rw [map_limit_of_limited finite, ← Nat.cast_list_prod, cutOff_coe, limit_limited, saturate]
  · rw [isExact_product]
    split
    · rename_i zero
      rw [zero, Bool.or_true]
      rfl
    · rename_i positive
      rw [Bool.eq_false_iff.mpr positive, Bool.or_false]
      split
      · rename_i infinite
        exact List.all_eq_false.mpr ⟨.unbounded, infinite, Bool.false_ne_true⟩
      · rw [isExact_limited]

theorem sum_eq (bounds : List SizeBound) :
    sum bounds =
      if .unbounded ∈ bounds then .unbounded
      else limited (bounds.all isExact) (min (counts bounds).sum ceiling) := by
  apply eq_of_limit_eq
  · rw [limit_sum]
    split
    · rename_i infinite
      obtain ⟨before, after, rfl⟩ := List.append_of_mem infinite
      simp
    · rename_i finite
      rw [map_limit_of_limited finite, ← Nat.cast_list_sum, cutOff_coe, limit_limited, saturate]
  · rw [isExact_sum]
    split
    · rename_i infinite
      exact List.all_eq_false.mpr ⟨.unbounded, infinite, Bool.false_ne_true⟩
    · rw [isExact_limited]

/-- Products and sums are the true ones, saturated once: zero wins over a missing limit in a
product, and a missing limit over everything in a sum.  So neither the order of the bounds nor
their grouping matters, and only a factor of zero makes a product zero. -/
theorem saturates_once (bounds : List SizeBound) :
    (product bounds =
      if bounds.any isZero then .exact 0
      else if .unbounded ∈ bounds then .unbounded
      else limited (bounds.all isExact) (min (counts bounds).prod ceiling)) ∧
    (sum bounds =
      if .unbounded ∈ bounds then .unbounded
      else limited (bounds.all isExact) (min (counts bounds).sum ceiling)) ∧
    (∀ others, others.Perm bounds → product others = product bounds ∧ sum others = sum bounds) ∧
    (∀ groups : List (List SizeBound), groups.flatten = bounds →
      product (groups.map product) = product bounds ∧ sum (groups.map sum) = sum bounds) ∧
    (∀ left right, left ++ right = bounds →
      (product left).times (product right) = product bounds ∧
      (sum left).plus (sum right) = sum bounds) ∧
    ((product bounds).isZero = true ↔ ∃ b ∈ bounds, b.isZero = true) := by
  refine ⟨product_eq bounds, sum_eq bounds, ?_, ?_, ?_, ?_⟩
  · intro others same
    exact ⟨product_perm same, sum_perm same⟩
  · rintro groups rfl
    exact ⟨product_flatten groups, sum_flatten groups⟩
  · rintro left right rfl
    exact ⟨(product_append left right).symm, (sum_append left right).symm⟩
  · rw [isZero_product, List.any_eq_true]

/-- The ceiling is passed before the missing limit and the zero are met, or after them. -/
theorem saturates_once_zeroLast :
    product [.exact ceiling, .exact 2, .unbounded, .atMost 0] = .exact 0 ∧
    product [.atMost 0, .unbounded, .exact 2, .exact ceiling] = .exact 0 ∧
    sum [.exact ceiling, .atMost 2, .exact 0] = .atMost ceiling ∧
    sum [sum [.exact ceiling], sum [.atMost 2, .exact 0]] = .atMost ceiling := by
  obtain ⟨product_eq_zero, _, reordered, _⟩ :=
    saturates_once [.exact ceiling, .exact 2, .unbounded, .atMost 0]
  obtain ⟨_, sum_eq_ceiling, _, regrouped, _⟩ :=
    saturates_once [.exact ceiling, .atMost 2, .exact 0]
  have first : product [.exact ceiling, .exact 2, .unbounded, .atMost 0] = .exact 0 :=
    product_eq_zero.trans (by decide)
  have second : sum [.exact ceiling, .atMost 2, .exact 0] = .atMost ceiling :=
    sum_eq_ceiling.trans (by decide)
  exact ⟨first, (reordered _ (List.reverse_perm _)).1.trans first, second,
    (regrouped [[.exact ceiling], [.atMost 2, .exact 0]] rfl).2.trans second⟩

end RelationalSolver.SizeBound
