import Mathlib.Order.Basic
import RelationalSolver.Proofs.Term.Variables
import RelationalSolver.Relation.Table

/-!
# Tables find the rows that agree

The index of a column lists the rows in which a value stands.  So a look-up finds
all rows that agree with the pattern, in table order, and no others.
-/

namespace RelationalSolver

/-! ## Binary search -/

section BinarySearch

variable {numbers : Array Nat} {m n i j : Nat}

/-- The numbers of the array increase from one place to the next. -/
def Increasing (numbers : Array Nat) : Prop := numbers.toList.Pairwise (· < ·)

/-- A smaller number stands at an earlier place. -/
theorem Increasing.place_lt (increasing : Increasing numbers) (first : numbers[i]? = some m)
    (second : numbers[j]? = some n) (less : m < n) : i < j := by
  obtain ⟨insideFirst, rfl⟩ := Array.getElem?_eq_some_iff.mp first
  obtain ⟨insideSecond, rfl⟩ := Array.getElem?_eq_some_iff.mp second
  by_contra before
  rcases Nat.lt_or_eq_of_le (Nat.le_of_not_lt before) with before | rfl
  · have more := List.pairwise_iff_getElem.mp increasing j i (by simpa using insideSecond)
      (by simpa using insideFirst) before
    simp only [Array.getElem_toList] at more
    omega
  · exact Nat.lt_irrefl _ less

/-- Between two places of an increasing array, a binary search finds what stands there. -/
theorem binSearchAux_isSome (increasing : Increasing numbers) (low : Fin (numbers.size + 1))
    (high : Fin numbers.size) (within : low.1 ≤ high.1) :
    Array.binSearchAux (fun a b => decide (a < b)) Option.isSome numbers n low high within = true ↔
      ∃ i, low.1 ≤ i ∧ i ≤ high.1 ∧ numbers[i]? = some n := by
  fun_induction Array.binSearchAux with
  | case1 low high within middle found less more _ ih =>
      have here : numbers[middle]? = some found := Array.getElem?_eq_getElem (by omega)
      rw [ih]
      constructor
      · rintro ⟨i, above, below, stands⟩
        dsimp only at above
        exact ⟨i, by omega, below, stands⟩
      · rintro ⟨i, above, below, stands⟩
        have := increasing.place_lt here stands (of_decide_eq_true less)
        exact ⟨i, this, below, stands⟩
  | case2 low high within middle found less none _ =>
      have here : numbers[middle]? = some found := Array.getElem?_eq_getElem (by omega)
      refine ⟨nofun, ?_⟩
      rintro ⟨i, above, below, stands⟩
      have := increasing.place_lt here stands (of_decide_eq_true less)
      omega
  | case3 low high within middle found _ less none _ =>
      have here : numbers[middle]? = some found := Array.getElem?_eq_getElem (by omega)
      refine ⟨nofun, ?_⟩
      rintro ⟨i, above, below, stands⟩
      have := increasing.place_lt stands here (of_decide_eq_true less)
      omega
  | case4 low high within middle found _ less more _ ih =>
      have here : numbers[middle]? = some found := Array.getElem?_eq_getElem (by omega)
      rw [ih]
      constructor
      · rintro ⟨i, above, below, stands⟩
        dsimp only at below
        exact ⟨i, above, by omega, stands⟩
      · rintro ⟨i, above, below, stands⟩
        have := increasing.place_lt stands here (of_decide_eq_true less)
        exact ⟨i, above, by dsimp only; omega, stands⟩
  | case5 low high within middle found least most _ =>
      have here : numbers[middle]? = some found := Array.getElem?_eq_getElem (by omega)
      have same : found = n := by
        simp only [decide_eq_true_eq] at least most
        omega
      exact ⟨fun _ => ⟨middle, by omega, by omega, same ▸ here⟩, fun _ => rfl⟩

/-- A binary search finds the members of an increasing array. -/
theorem Increasing.binSearchContains_iff (increasing : Increasing numbers) :
    numbers.binSearchContains n (· < ·) = true ↔ n ∈ numbers := by
  rw [Array.binSearchContains, Array.mem_iff_getElem?]
  split
  · rename_i filled
    simp only [ite_self, Nat.zero_le, dif_pos]
    rw [binSearchAux_isSome increasing]
    refine exists_congr fun i => ⟨fun found => found.2.2, fun stands => ⟨Nat.zero_le i, ?_, stands⟩⟩
    have inside := (Array.getElem?_eq_some_iff.mp stands).1
    exact Nat.le_sub_one_of_lt inside
  · refine ⟨nofun, ?_⟩
    rintro ⟨i, stands⟩
    have inside := (Array.getElem?_eq_some_iff.mp stands).1
    omega

end BinarySearch

/-! ## Rows that agree -/

/-- The row has every value that the pattern asks for, as far as both reach. -/
def Pattern.agrees : Pattern → Row → Bool
  | some t :: pattern, u :: row => t = u && Pattern.agrees pattern row
  | none :: pattern, _ :: row => Pattern.agrees pattern row
  | _, _ => true

/-- Every value that the pattern asks for stands in its column. -/
theorem Pattern.agrees_iff {pattern : Pattern} {row : Row} :
    pattern.agrees row = true ↔
      ∀ (column : Nat) (value found : Term), pattern[column]? = some (some value) →
        row[column]? = some found → value = found := by
  induction pattern generalizing row with
  | nil => simp [agrees]
  | cons asked pattern ih =>
      cases row with
      | nil => simp [agrees]
      | cons t row =>
          have split : (∀ (column : Nat) (value found : Term),
              (asked :: pattern)[column]? = some (some value) →
              (t :: row)[column]? = some found → value = found) ↔
              (∀ value, asked = some value → value = t) ∧ Pattern.agrees pattern row = true := by
            rw [ih]
            constructor
            · intro every
              refine ⟨fun value same => every 0 value t (by simp [same]) (by simp), ?_⟩
              exact fun column value found asks stands => every (column + 1) value found asks stands
            · rintro ⟨here, there⟩ column value found asks stands
              cases column with
              | zero =>
                  simp only [List.getElem?_cons_zero, Option.some.injEq] at asks stands
                  rw [← stands]
                  exact here value asks
              | succ column => exact there column value found asks stands
          rw [split]
          cases asked <;> simp [agrees]

namespace FactTable

variable {table next : FactTable} {pattern : Pattern}

/-- The value stands in the column of a numbered row. -/
def Stands (table : FactTable) (column : Nat) (value : Term) (number : Nat) : Prop :=
  ∃ row, table.rows[number]? = some row ∧ row[column]? = some value

instance (table : FactTable) (column : Nat) (value : Term) (number : Nat) :
    Decidable (table.Stands column value number) :=
  decidable_of_iff ((table.rows[number]?.bind (·[column]?)) = some value) (by
    rw [Option.bind_eq_some_iff]
    rfl)

/-- Rows have one ground term for every column, and every column is indexed. -/
structure WellFormed (table : FactTable) : Prop where
  width : table.columns.length = table.arity
  lengths : ∀ row ∈ table.rows.toList, row.length = table.arity
  ground : ∀ row ∈ table.rows.toList, ∀ t ∈ row, t.isGround = true
  indexed : ∀ (column : Nat) (index : ColumnIndex) (value : Term),
    table.columns[column]? = some index →
    (index.rowsOf value).toList =
      (List.range table.rows.size).filter (table.Stands column value ·)
  valued : ∀ (column : Nat) (index : ColumnIndex) (value : Term),
    table.columns[column]? = some index →
    (index.values.contains value = true ↔ ∃ row ∈ table.rows.toList, row[column]? = some value)

theorem wellFormed_empty (arity : Nat) : (empty arity).WellFormed := by
  have blank : ∀ {column : Nat} {index : ColumnIndex},
      (empty arity).columns[column]? = some index → index = .empty := by
    intro column index found
    rw [empty, List.getElem?_replicate] at found
    split at found
    · exact (Option.some.inj found).symm
    · cases found
  constructor
  · simp [empty]
  · simp [empty]
  · simp [empty]
  · intro column index value found
    rw [blank found]
    simp [empty]
  · intro column index value found
    rw [blank found]
    simp [empty]

theorem stands_push {row : Row} {column number : Nat} {value : Term} :
    (table.push row).Stands column value number ↔
      if number = table.rows.size then row[column]? = some value
      else table.Stands column value number := by
  unfold Stands push
  rw [Array.getElem?_push]
  split <;> simp

theorem WellFormed.push {row : Row} (wellFormed : table.WellFormed)
    (fits : row.length = table.arity) (ground : ∀ t ∈ row, t.isGround = true) :
    (table.push row).WellFormed := by
  have recorded : ∀ {column : Nat} {index : ColumnIndex},
      (table.push row).columns[column]? = some index →
      ∃ before value, table.columns[column]? = some before ∧ row[column]? = some value ∧
        index = before.record value table.rows.size := by
    intro column index found
    rw [FactTable.push, List.getElem?_zipWith] at found
    cases former : table.columns[column]? with
    | none => simp [former] at found
    | some before =>
        cases here : row[column]? with
        | none => simp [former, here] at found
        | some value =>
            simp only [former, here, Option.some.injEq] at found
            exact ⟨before, value, rfl, rfl, found.symm⟩
  constructor
  · simp [FactTable.push, wellFormed.width, fits]
  · intro other member
    rcases List.mem_append.mp (Array.toList_push ▸ member) with before | new
    · exact wellFormed.lengths other before
    · rw [List.mem_singleton.mp new]
      exact fits
  · intro other member
    rcases List.mem_append.mp (Array.toList_push ▸ member) with before | new
    · exact wellFormed.ground other before
    · rw [List.mem_singleton.mp new]
      exact ground
  · intro column index value found
    rcases recorded found with ⟨before, here, former, stands, rfl⟩
    have earlier : ∀ number ∈ List.range table.rows.size,
        decide ((table.push row).Stands column value number) =
          decide (table.Stands column value number) := by
      intro number member
      rw [decide_eq_decide, stands_push, if_neg (Nat.ne_of_lt (List.mem_range.mp member))]
    have size : (table.push row).rows.size = table.rows.size + 1 := Array.size_push row
    rw [size, List.range_succ, List.filter_append, List.filter_congr earlier,
      ← wellFormed.indexed column before value former, ColumnIndex.rowsOf_record]
    have last : (table.push row).Stands column value table.rows.size ↔ here = value := by
      rw [stands_push, if_pos rfl, stands, Option.some.injEq]
    by_cases same : here = value
    · simp [last, same]
    · simp [last, same]
  · intro column index value found
    rcases recorded found with ⟨before, here, former, stands, rfl⟩
    rw [ColumnIndex.contains_values_record, wellFormed.valued column before value former]
    simp [FactTable.push, or_and_right, exists_or, stands, or_comm]

theorem checkRow_ok {arity number : Nat} {row : Row}
    (checked : checkRow arity number row = .ok ()) :
    row.length = arity ∧ ∀ t ∈ row, t.isGround = true := by
  rw [checkRow] at checked
  split at checked
  · cases checked
  · rename_i fits
    split at checked
    · cases checked
    · rename_i none
      refine ⟨Decidable.not_not.mp fits, ?_⟩
      simpa [List.findIdx?_eq_none_iff] using none

/-- A table that was made of rows is well-formed. -/
theorem wellFormed_of_ofRows {arity : Nat} {rows : List Row}
    (made : ofRows arity rows = .ok table) :
    table.WellFormed := by
  have each : ∀ {rows : List Row} {before : FactTable}, before.arity = arity →
      before.WellFormed →
      rows.foldlM (fun table row => do
        checkRow arity table.rows.size row
        pure (table.push row)) before = Except.ok table → table.WellFormed := by
    intro rows
    induction rows with
    | nil =>
        intro before _ wellFormed made
        cases made
        exact wellFormed
    | cons row rows ih =>
        intro before sameArity wellFormed made
        rw [List.foldlM_cons] at made
        cases checked : checkRow arity before.rows.size row with
        | error e =>
            rw [checked] at made
            cases made
        | ok _ =>
            rw [checked] at made
            have fits := checkRow_ok checked
            have pushed := wellFormed.push (fits.1.trans sameArity.symm) fits.2
            refine ih ?_ pushed made
            exact sameArity
  exact each rfl (wellFormed_empty arity) made

/-- A table that was made of rows holds them in their order. -/
theorem rows_of_ofRows {arity : Nat} {rows : List Row} (made : ofRows arity rows = .ok table) :
    table.rows.toList = rows ∧ table.arity = arity := by
  have each : ∀ {rows : List Row} {before : FactTable},
      rows.foldlM (fun table row => do
        checkRow arity table.rows.size row
        pure (table.push row)) before = Except.ok table →
      table.rows.toList = before.rows.toList ++ rows ∧ table.arity = before.arity := by
    intro rows
    induction rows with
    | nil =>
        intro before made
        cases made
        simp
    | cons row rows ih =>
        intro before made
        rw [List.foldlM_cons] at made
        cases checked : checkRow arity before.rows.size row with
        | error e =>
            rw [checked] at made
            cases made
        | ok _ =>
            rw [checked] at made
            have later := ih made
            simpa [FactTable.push] using later
  simpa [empty] using each made

/-! ## Looking up rows -/

theorem filterMap_range {α β : Type} (items : List α) (f : α → Option β) :
    (List.range items.length).filterMap (fun number => items[number]?.bind f) =
      items.filterMap f := by
  induction items with
  | nil => rfl
  | cons item items ih =>
      have later : (List.range items.length).filterMap
          ((fun number => (item :: items)[number]?.bind f) ∘ Nat.succ) = items.filterMap f := ih
      rw [List.length_cons, List.range_succ_eq_map, List.filterMap_cons, List.filterMap_map, later]
      rfl

theorem splitShortest_eq_none {lists : List (Array Nat)} :
    splitShortest lists = none ↔ lists = [] := by
  cases lists with
  | nil => simp [splitShortest]
  | cons rows lists =>
      rw [splitShortest]
      cases splitShortest lists with
      | none => simp
      | some split =>
          dsimp only
          split <;> simp

/-- Splitting off the shortest list loses none. -/
theorem splitShortest_perm {lists others : List (Array Nat)} {best : Array Nat}
    (chosen : splitShortest lists = some (best, others)) : (best :: others).Perm lists := by
  induction lists generalizing best others with
  | nil => cases chosen
  | cons rows lists ih =>
      rw [splitShortest] at chosen
      cases rest : splitShortest lists with
      | none =>
          rw [rest] at chosen
          rw [splitShortest_eq_none.mp rest]
          cases chosen
          exact .refl _
      | some split =>
          rw [rest] at chosen
          dsimp only at chosen
          split at chosen
          · cases chosen
            exact (List.Perm.swap ..).trans ((ih rest).cons rows)
          · cases chosen
            exact .refl _

theorem mem_demands {numbers : Array Nat} :
    numbers ∈ table.demands pattern ↔ ∃ (column : Nat) (index : ColumnIndex) (value : Term),
      table.columns[column]? = some index ∧ pattern[column]? = some (some value) ∧
      numbers = index.rowsOf value := by
  simp only [demands, List.mem_filterMap, Option.map_eq_some_iff, Prod.exists]
  constructor
  · rintro ⟨index, _, member, value, rfl, rfl⟩
    rcases List.mem_iff_getElem?.mp member with ⟨column, found⟩
    rcases List.getElem?_zip_eq_some.mp found with ⟨here, asks⟩
    exact ⟨column, index, value, here, asks, rfl⟩
  · rintro ⟨column, index, value, here, asks, rfl⟩
    refine ⟨index, some value, ?_, value, rfl, rfl⟩
    exact List.mem_iff_getElem?.mpr ⟨column, List.getElem?_zip_eq_some.mpr ⟨here, asks⟩⟩

/-- The rows with a value are listed in increasing order. -/
theorem WellFormed.increasing (wellFormed : table.WellFormed) {column : Nat} {index : ColumnIndex}
    (value : Term) (here : table.columns[column]? = some index) :
    Increasing (index.rowsOf value) := by
  rw [Increasing, wellFormed.indexed column index value here]
  exact List.pairwise_lt_range.filter _

theorem WellFormed.mem_rowsOf (wellFormed : table.WellFormed) {column number : Nat}
    {index : ColumnIndex} {value : Term} (here : table.columns[column]? = some index) :
    number ∈ index.rowsOf value ↔ number < table.rows.size ∧ table.Stands column value number := by
  rw [← Array.mem_toList_iff, wellFormed.indexed column index value here]
  simp

/-- The numbers that stand in all lists of the demands, in increasing order. -/
theorem WellFormed.common_eq (wellFormed : table.WellFormed) {numbers : List Nat}
    (found : common (table.demands pattern) = some numbers) :
    numbers = (List.range table.rows.size).filter
      fun number => (table.demands pattern).all (number ∈ ·) := by
  obtain ⟨⟨best, others⟩, chosen, rfl⟩ := Option.map_eq_some_iff.mp found
  have same := splitShortest_perm chosen
  obtain ⟨column, index, value, here, asks, rfl⟩ :=
    mem_demands.mp (same.mem_iff.mp List.mem_cons_self)
  dsimp only
  rw [wellFormed.indexed column index value here, List.filter_filter]
  apply List.filter_congr
  intro number inside
  have searched : ∀ rows ∈ others,
      rows.binSearchContains number (· < ·) = decide (number ∈ rows) := by
    intro rows member
    obtain ⟨column, index, value, here, asks, rfl⟩ :=
      mem_demands.mp (same.mem_iff.mp (List.mem_cons_of_mem _ member))
    rw [Bool.eq_iff_iff, decide_eq_true_eq]
    exact (wellFormed.increasing value here).binSearchContains_iff
  rw [← same.all_eq, List.all_cons, Bool.and_comm]
  congr 1
  · rw [decide_eq_decide, wellFormed.mem_rowsOf here, and_iff_right (List.mem_range.mp inside)]
  · rw [Bool.eq_iff_iff, List.all_eq_true, List.all_eq_true]
    exact forall₂_congr fun rows member => by rw [searched rows member]

/-- A row agrees if its number stands in all lists of the demands. -/
theorem WellFormed.agrees_eq (wellFormed : table.WellFormed) (pattern : Pattern) {number : Nat}
    {row : Row} (numbered : table.rows[number]? = some row) :
    pattern.agrees row = (table.demands pattern).all (number ∈ ·) := by
  obtain ⟨inside, rfl⟩ := Array.getElem?_eq_some_iff.mp numbered
  have fits : table.rows[number].length = table.columns.length := by
    rw [wellFormed.width]
    exact wellFormed.lengths _ (by simp)
  have stands : ∀ {column : Nat} {index : ColumnIndex} {value : Term},
      table.columns[column]? = some index →
      (number ∈ index.rowsOf value ↔ table.rows[number][column]? = some value) := by
    intro column index value here
    simp [wellFormed.mem_rowsOf here, Stands, inside]
  rw [Bool.eq_iff_iff, Pattern.agrees_iff, List.all_eq_true]
  constructor
  · intro agrees rows demanded
    obtain ⟨column, index, value, here, asks, rfl⟩ := mem_demands.mp demanded
    have bound : column < table.rows[number].length := by
      rw [fits]
      exact (List.getElem?_eq_some_iff.mp here).1
    have found := List.getElem?_eq_getElem bound
    rw [decide_eq_true_eq, stands here, agrees column value _ asks found, found]
  · intro listed column value found asks there
    have bound : column < table.columns.length := by
      rw [← fits]
      exact (List.getElem?_eq_some_iff.mp there).1
    have here := List.getElem?_eq_getElem bound
    have demanded := listed _ (mem_demands.mpr ⟨column, _, value, here, asks, rfl⟩)
    rw [decide_eq_true_eq, stands here, there, Option.some.injEq] at demanded
    exact demanded.symm

/-- A look-up finds exactly the rows that agree with the pattern. -/
theorem WellFormed.matching_eq (wellFormed : table.WellFormed) (pattern : Pattern) :
    table.matching pattern = table.rows.toList.filter pattern.agrees := by
  rw [matching]
  cases found : common (table.demands pattern) with
  | none =>
      rw [common, Option.map_eq_none_iff, splitShortest_eq_none] at found
      symm
      apply List.filter_eq_self.mpr
      intro row member
      obtain ⟨number, numbered⟩ := Array.mem_iff_getElem?.mp (Array.mem_toList_iff.mp member)
      rw [wellFormed.agrees_eq pattern numbered, found, List.all_nil]
  | some numbers =>
      have agreeing : ∀ number ∈ List.range table.rows.toList.length,
          (if (table.demands pattern).all (number ∈ ·) then table.rows[number]? else none) =
            (table.rows.toList[number]?).bind (Option.guard pattern.agrees) := by
        intro number _
        rw [Array.getElem?_toList, Option.bind_guard]
        cases numbered : table.rows[number]? with
        | none => simp
        | some row => rw [Option.filter_some, wellFormed.agrees_eq pattern numbered]
      dsimp only
      rw [wellFormed.common_eq found, List.filterMap_filter, ← Array.length_toList,
        List.filterMap_congr agreeing, filterMap_range, List.filterMap_eq_filter]

end FactTable

end RelationalSolver
