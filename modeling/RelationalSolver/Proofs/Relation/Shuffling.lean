import Mathlib.Data.Nat.Factorial.Basic
import RelationalSolver.Random.Shuffle

/-!
# Shuffling is a permutation

Item after item is swapped with one at or before its place.  The places are read off drawn numbers,
digit by digit, in a number system whose base grows from digit to digit.  So every place is one that
there is, whatever the seed.
-/

namespace RelationalSolver.Random

variable {α : Type}

/-! ## Numbers below a bound -/

section Below

variable {bound : UInt32}

theorem toNat_product (word bound : UInt32) :
    (word.toUInt64 * bound.toUInt64).toNat = word.toNat * bound.toNat := by
  have small : word.toNat * bound.toNat < 0x100000000 * 0x100000000 :=
    Nat.mul_lt_mul'' word.toNat_lt bound.toNat_lt
  rw [UInt64.toNat_mul, UInt32.toNat_toUInt64, UInt32.toNat_toUInt64]
  exact Nat.mod_eq_of_lt small

/-- The high half of a word times a bound is below the bound, and the next number is if the low
half is so large that there can be a carry. -/
theorem high_lt (word : UInt32) (positive : 0 < bound.toNat) :
    word.toNat * bound.toNat / 0x100000000 < bound.toNat ∧
      (0x100000000 - bound.toNat < word.toNat * bound.toNat % 0x100000000 →
        word.toNat * bound.toNat / 0x100000000 + 1 < bound.toNat) := by
  have most : word.toNat * bound.toNat ≤ (0x100000000 - 1) * bound.toNat :=
    Nat.mul_le_mul_right bound.toNat (Nat.le_sub_one_of_lt word.toNat_lt)
  omega

theorem toNat_high (word : UInt32) (positive : 0 < bound.toNat) :
    ((word.toUInt64 * bound.toUInt64) >>> 32).toUInt32.toNat =
      word.toNat * bound.toNat / 0x100000000 := by
  have fits := Nat.lt_trans (high_lt word positive).1 bound.toNat_lt
  rw [UInt64.toNat_toUInt32, UInt64.toNat_shiftRight, toNat_product, Nat.shiftRight_eq_div_pow]
  exact Nat.mod_eq_of_lt fits

/-- A drawn number is below its bound. -/
theorem Generator.below_lt (gen : Generator) (positive : 0 < bound.toNat) :
    (gen.below bound).1.toNat < bound.toNat := by
  obtain ⟨high, carried⟩ := high_lt gen.word.1 positive
  have same := toNat_high gen.word.1 positive
  rw [below]
  dsimp only
  split
  · rename_i large
    rw [gt_iff_lt, UInt32.lt_iff_toNat_lt, UInt64.toNat_toUInt32, toNat_product, UInt32.toNat_sub,
      UInt32.toNat_zero, Nat.add_zero, Nat.mod_eq_of_lt (Nat.sub_lt (Nat.two_pow_pos 32) positive)]
      at large
    dsimp only
    split
    · rw [UInt32.toNat_add, same]
      exact Nat.lt_of_le_of_lt (Nat.mod_le _ _) (carried large)
    · exact same ▸ high
  · exact same ▸ high

end Below

/-! ## Places -/

/-- A widened product is still a word, and the number of choices that the items before the factor
have together. -/
theorem widen_eq {product factor bound : Nat} (later : bound < factor)
    (fits : product < 0x100000000)
    (same : product = bound.ascFactorial (factor - bound)) :
    (widen product factor).1 < 0x100000000 ∧ bound < (widen product factor).2 ∧
      (widen product factor).1 = bound.ascFactorial ((widen product factor).2 - bound) := by
  fun_induction widen product factor with
  | case1 product factor wider ih =>
      apply ih (Nat.lt_succ_of_lt later) wider.2
      rw [Nat.sub_add_comm (Nat.le_of_lt later), Nat.ascFactorial_succ,
        Nat.add_sub_cancel' (Nat.le_of_lt later), same, Nat.mul_comm]
  | case2 product factor _ => exact ⟨fits, later, same⟩

/-- The first bound alone determines one place. -/
theorem widen_next {bound : Nat} (few : bound < 0x100000000) :
    (widen bound (bound + 1)).1 < 0x100000000 ∧ bound < (widen bound (bound + 1)).2 ∧
      (widen bound (bound + 1)).1 =
        bound.ascFactorial ((widen bound (bound + 1)).2 - bound) := by
  apply widen_eq (Nat.lt_succ_self bound) few
  rw [Nat.succ_eq_add_one, Nat.add_sub_cancel_left, Nat.ascFactorial_succ, Nat.ascFactorial_zero,
    Nat.mul_one, Nat.add_zero]

namespace Places

variable {places : Places}

/-- The drawn number determines the places that are still to be read off it. -/
def Determined (places : Places) : Prop :=
  places.remaining = 0 ∨ places.chunk < (places.placed + 1).ascFactorial places.remaining

/-- Read the place of the next item off a number that determines so many places. -/
def read (bound chunk remaining : Nat) (gen : Generator) : Nat × Places × Generator :=
  if remaining - 1 = 0 then (chunk, ⟨bound, chunk, remaining - 1⟩, gen)
  else (chunk % bound, ⟨bound, chunk / bound, remaining - 1⟩, gen)

theorem read_determined {placed chunk remaining : Nat} (some : 0 < remaining)
    (within : chunk < (placed + 1).ascFactorial remaining) (gen : Generator) :
    (read (placed + 1) chunk remaining gen).1 ≤ placed ∧
      (read (placed + 1) chunk remaining gen).2.1.Determined ∧
      (read (placed + 1) chunk remaining gen).2.1.placed = placed + 1 := by
  obtain ⟨left, rfl⟩ := Nat.exists_eq_add_one.mpr some
  rw [Nat.ascFactorial_succ, ← Nat.succ_ascFactorial] at within
  rw [read, Nat.add_sub_cancel]
  split
  · rename_i last
    rw [last, Nat.ascFactorial_zero, Nat.mul_one] at within
    exact ⟨Nat.le_of_lt_succ within, .inl last, rfl⟩
  · exact ⟨Nat.le_of_lt_succ (Nat.mod_lt _ (Nat.succ_pos _)),
      .inr (Nat.div_lt_of_lt_mul within), rfl⟩

/-- A place is at or before that of the item, and the places after it are determined. -/
theorem next_determined (determined : places.Determined) (few : places.placed + 1 < 0x100000000)
    (gen : Generator) :
    (places.next gen).1 ≤ places.placed ∧ (places.next gen).2.1.Determined ∧
      (places.next gen).2.1.placed = places.placed + 1 := by
  by_cases spent : places.remaining = 0
  · obtain ⟨fits, later, same⟩ := widen_next few
    let widened := widen (places.placed + 1) (places.placed + 2)
    have reads : places.next gen =
        read (places.placed + 1) (gen.below widened.1.toUInt32).1.toNat
          (widened.2 - (places.placed + 1)) (gen.below widened.1.toUInt32).2 := by
      rw [next, if_pos spent]
      rfl
    have word : widened.1.toUInt32.toNat =
        (places.placed + 1).ascFactorial (widened.2 - (places.placed + 1)) :=
      (UInt32.toNat_ofNat_of_lt fits).trans same
    have within := gen.below_lt (word ▸ Nat.ascFactorial_pos _ _ : 0 < widened.1.toUInt32.toNat)
    rw [reads]
    exact read_determined (Nat.sub_pos_of_lt later) (word ▸ within) _
  · have reads : places.next gen =
        read (places.placed + 1) places.chunk places.remaining gen := by
      rw [next, if_neg spent]
      rfl
    rw [reads]
    exact read_determined (Nat.pos_of_ne_zero spent) (determined.resolve_left spent) gen

end Places

/-! ## Swaps -/

/-- The places that are drawn for so many items. -/
def Places.drawn (places : Places) (gen : Generator) : Nat → List Nat
  | 0 => []
  | count + 1 =>
      let (j, places, gen) := places.next gen
      j :: places.drawn gen count

theorem Places.length_drawn (places : Places) (gen : Generator) (count : Nat) :
    (places.drawn gen count).length = count := by
  induction count generalizing places gen with
  | zero => rfl
  | succ count ih => exact congrArg (· + 1) (ih _ _)

theorem Places.Determined.drawn_le {places : Places} (determined : places.Determined)
    (gen : Generator) {count : Nat} (few : places.placed + count < 0x100000000) {i j : Nat}
    (drawn : (places.drawn gen count)[i]? = some j) : j ≤ places.placed + i := by
  induction count generalizing places gen i with
  | zero => cases drawn
  | succ count ih =>
      obtain ⟨place, later, placed⟩ := next_determined determined (by omega) gen
      cases i with
      | zero =>
          cases drawn
          exact place
      | succ i =>
          have atMost := ih later (places.next gen).2.2 (by omega) drawn
          omega

/-- The items are swapped with those at the drawn places. -/
theorem swapFrom_eq (items : Array α) (places : Places) (gen : Generator) (i count : Nat) :
    swapFrom items places gen i count = ((places.drawn gen count).zipIdx i).foldl
      (fun items place => items.swapIfInBounds place.2 place.1) items := by
  induction count generalizing items places gen i with
  | zero => rfl
  | succ count ih =>
      rw [swapFrom, Places.drawn]
      dsimp only
      rw [ih, List.zipIdx_cons, List.foldl_cons]

/-- A seed and a number of items determine places, each at or before that of its item, and a list
of so many items is shuffled by swapping item after item with the one at its place. -/
theorem shuffle_eq_swaps (seed : UInt64) {count : Nat} (few : count < 0x100000000) :
    ∃ places : List Nat, places.length = count ∧ (∀ i j : Nat, places[i]? = some j → j ≤ i) ∧
      ∀ {α : Type} (items : List α), items.length = count →
        shuffle seed items = (places.zipIdx.foldl
          (fun items place => items.swapIfInBounds place.2 place.1) items.toArray).toList := by
  refine ⟨Places.start.drawn (.ofSeed seed) count, Places.length_drawn _ _ _, ?_, ?_⟩
  · intro i j drawn
    have determined : Places.start.Determined := .inr Nat.zero_lt_one
    have all : Places.start.placed + count < 0x100000000 := (Nat.zero_add count).symm ▸ few
    have place := determined.drawn_le (.ofSeed seed) all drawn
    exact Nat.le_trans place (Nat.le_of_eq (Nat.zero_add i))
  · rintro α items rfl
    rw [← swapFrom_eq, shuffle]
    split
    · rename_i short
      cases items with
      | nil => rfl
      | cons item items =>
          have none := Nat.le_zero.mp (Nat.le_of_succ_le_succ short)
          obtain rfl := List.eq_nil_of_length_eq_zero none
          rfl
    · rfl

theorem swapIfInBounds_perm (items : Array α) (i j : Nat) :
    (items.swapIfInBounds i j).toList.Perm items.toList := by
  rw [Array.swapIfInBounds_def]
  split
  · split
    · exact (Array.swap_perm _ _).toList
    · exact .refl _
  · exact .refl _

theorem swapFrom_perm (items : Array α) (places : Places) (gen : Generator) (i count : Nat) :
    (swapFrom items places gen i count).toList.Perm items.toList := by
  induction count generalizing items places gen i with
  | zero => exact .refl _
  | succ count ih =>
      rw [swapFrom]
      exact (ih _ _ _ _).trans (swapIfInBounds_perm items i _)

/-- Shuffling loses no item and repeats none. -/
theorem shuffle_perm (seed : UInt64) (items : List α) : (shuffle seed items).Perm items := by
  rw [shuffle]
  split
  · exact .refl _
  · exact swapFrom_perm _ _ _ _ _

end RelationalSolver.Random
