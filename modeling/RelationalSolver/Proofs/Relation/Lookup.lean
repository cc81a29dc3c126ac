import RelationalSolver.Proofs.Relation.Table
import RelationalSolver.Relation.Source

/-!
# A table is a filter of its rows

A table takes any list of rows that have one ground term for every column, and refuses
all others.  To look up a pattern in it is to go through the rows and keep those that
have the values asked for, although no row is looked at.
-/

namespace RelationalSolver

/-- The row has one ground term for every column. -/
def Row.Fits (arity : Nat) (row : Row) : Prop :=
  row.length = arity ∧ ∀ t ∈ row, t.isGround = true

/-- The row has the value that the pattern asks for, in every column that there is. -/
def Pattern.Picks (pattern : Pattern) (arity : Nat) (row : Row) : Prop :=
  ∀ column < arity, ∀ value ∈ pattern[column]?.join, row[column]? = some value

instance (pattern : Pattern) (arity : Nat) (row : Row) : Decidable (pattern.Picks arity row) :=
  inferInstanceAs (Decidable (∀ column < arity, ∀ value ∈ pattern[column]?.join, _))

theorem Row.not_fits_iff {arity : Nat} {row : Row} :
    ¬ Row.Fits arity row ↔ row.length ≠ arity ∨ ∃ t ∈ row, ∃ v : Var, t.mentions v = true := by
  simp [Fits, Term.isGround_iff, imp_iff_not_or]

theorem Pattern.agrees_eq_picks {pattern : Pattern} {arity : Nat} {row : Row}
    (fits : Row.Fits arity row) : pattern.agrees row = decide (pattern.Picks arity row) := by
  rw [Bool.eq_iff_iff, decide_eq_true_eq, agrees_iff]
  constructor
  · intro agrees column inside value asks
    have found := List.getElem?_eq_getElem (fits.1 ▸ inside)
    rw [found, agrees column value _ (Option.join_eq_some_iff.mp asks) found]
  · intro picks column value found asks there
    have inside : column < arity := fits.1 ▸ (List.getElem?_eq_some_iff.mp there).1
    have picked := picks column inside value (Option.join_eq_some_iff.mpr asks)
    exact Option.some.inj (picked.symm.trans there)

namespace FactTable

variable {arity number : Nat} {rows : List Row} {e : TableError}

theorem checkRow_eq_ok_iff {row : Row} :
    checkRow arity number row = .ok () ↔ Row.Fits arity row := by
  refine ⟨checkRow_ok, ?_⟩
  rintro ⟨length, ground⟩
  have none : row.findIdx? (fun t => !t.isGround) = none := by
    simpa [List.findIdx?_eq_none_iff] using ground
  rw [checkRow, if_neg (not_not.mpr length), none]
  rfl

/-- A list of rows is refused for the first row that does not fit. -/
theorem ofRows_eq_error_iff : ofRows arity rows = .error e ↔
    ∃ front row back, rows = front ++ row :: back ∧ (∀ earlier ∈ front, Row.Fits arity earlier) ∧
      checkRow arity front.length row = .error e := by
  have each : ∀ (rows : List Row) (before : FactTable),
      rows.foldlM (fun table row => do
        checkRow arity table.rows.size row
        pure (table.push row)) before = Except.error e ↔
      ∃ front row back, rows = front ++ row :: back ∧
        (∀ earlier ∈ front, Row.Fits arity earlier) ∧
        checkRow arity (before.rows.size + front.length) row = .error e := by
    intro rows
    induction rows with
    | nil => simp [pure, Except.pure]
    | cons row rows ih =>
        intro before
        rw [List.foldlM_cons]
        cases checked : checkRow arity before.rows.size row with
        | error other =>
            constructor
            · rintro ⟨⟩
              exact ⟨[], row, rows, rfl, nofun, checked⟩
            · rintro ⟨front, found, back, same, fit, refused⟩
              cases front with
              | nil =>
                  cases same
                  cases checked.symm.trans refused
                  rfl
              | cons first front =>
                  cases same
                  rw [checkRow_eq_ok_iff.mpr (fit row List.mem_cons_self)] at checked
                  cases checked
        | ok _ =>
            refine (ih (before.push row)).trans ?_
            have size : (before.push row).rows.size = before.rows.size + 1 := Array.size_push row
            rw [size]
            constructor
            · rintro ⟨front, found, back, rfl, fit, refused⟩
              refine ⟨row :: front, found, back, rfl, ?_, ?_⟩
              · exact List.forall_mem_cons.mpr ⟨checkRow_ok checked, fit⟩
              · rwa [List.length_cons, Nat.add_comm front.length, ← Nat.add_assoc]
            · rintro ⟨front, found, back, same, fit, refused⟩
              cases front with
              | nil =>
                  cases same
                  rw [List.length_nil, Nat.add_zero, checked] at refused
                  cases refused
              | cons first front =>
                  cases same
                  refine ⟨front, found, back, rfl, (List.forall_mem_cons.mp fit).2, ?_⟩
                  rwa [Nat.add_assoc, Nat.add_comm 1]
  simpa [ofRows, empty] using each rows (empty arity)

/-- Rows make a table if all of them fit. -/
theorem exists_ofRows_iff :
    (∃ table, ofRows arity rows = .ok table) ↔ ∀ row ∈ rows, Row.Fits arity row := by
  constructor
  · rintro ⟨table, made⟩ row member
    have wellFormed := wellFormed_of_ofRows made
    obtain ⟨rfl, rfl⟩ := rows_of_ofRows made
    exact ⟨wellFormed.lengths row member, wellFormed.ground row member⟩
  · intro fit
    cases made : ofRows arity rows with
    | ok table => exact ⟨table, rfl⟩
    | error e =>
        obtain ⟨front, row, back, rfl, _, refused⟩ := ofRows_eq_error_iff.mp made
        rw [checkRow_eq_ok_iff.mpr (fit row (by simp))] at refused
        cases refused

/-- Looking up a pattern keeps the rows that have the values asked for. -/
theorem matching_of_ofRows {table : FactTable} (made : ofRows arity rows = .ok table)
    (pattern : Pattern) : table.matching pattern = rows.filter (pattern.Picks arity) := by
  rw [(wellFormed_of_ofRows made).matching_eq, (rows_of_ofRows made).1]
  apply List.filter_congr
  intro row member
  exact Pattern.agrees_eq_picks (exists_ofRows_iff.mp ⟨table, made⟩ row member)

/-- The values of a column are those that stand in it. -/
theorem columnValues_of_ofRows {table : FactTable} (made : ofRows arity rows = .ok table)
    {column : Nat} (inside : column < arity) :
    ∃ values, table.columnValues column = some values ∧
      ∀ value, values.contains value = true ↔ ∃ row ∈ rows, row[column]? = some value := by
  have wellFormed := wellFormed_of_ofRows made
  obtain ⟨rfl, rfl⟩ := rows_of_ofRows made
  have here := List.getElem?_eq_getElem (wellFormed.width.symm ▸ inside)
  refine ⟨_, by rw [columnValues, here, Option.map_some], fun value => ?_⟩
  exact wellFormed.valued column _ value here

/-- A list of rows is refused exactly if some row has the wrong length or holds a variable,
and then for the first such row.  The table of the others is a filter: what a pattern of
any length yields are the rows, in order and as often as they stand there, that have the
values it asks for, and the bound is their number.  A column knows exactly its values. -/
theorem ofRows_filters (arity : Nat) (rows : List Row) :
    ((∃ e, ofRows arity rows = .error e) ↔
      ∃ row ∈ rows, row.length ≠ arity ∨ ∃ t ∈ row, ∃ v : Var, t.mentions v = true) ∧
    (∀ e, ofRows arity rows = .error e → ∃ front row back, rows = front ++ row :: back ∧
      (∀ earlier ∈ front, Row.Fits arity earlier) ∧
      checkRow arity front.length row = .error e) ∧
    ∀ table, ofRows arity rows = .ok table →
      (∀ pattern, (FactSource.table table).rows pattern =
          .listed (rows.filter (pattern.Picks arity)) ∧
        (FactSource.table table).bound pattern =
          .exact (rows.filter (pattern.Picks arity)).length) ∧
      ∀ column < arity, ∃ values, (FactSource.table table).columnValues column = some values ∧
        ∀ value, values.contains value = true ↔ ∃ row ∈ rows, row[column]? = some value := by
  refine ⟨?_, fun e refused => ofRows_eq_error_iff.mp refused, ?_⟩
  · have refused :
        (∃ e, ofRows arity rows = .error e) ↔ ¬ ∃ table, ofRows arity rows = .ok table := by
      cases ofRows arity rows <;> simp
    rw [refused, exists_ofRows_iff]
    simp only [not_forall, exists_prop, Row.not_fits_iff]
  · intro table made
    refine ⟨fun pattern => ?_, fun column inside => columnValues_of_ofRows made inside⟩
    rw [FactSource.rows_table, FactSource.bound_table, matching_of_ofRows made]
    exact ⟨rfl, rfl⟩

/-- A row that stands twice is found twice, also by a pattern that is too long. -/
theorem ofRows_filters_twice :
    ∃ table, ofRows 2 [[.int 1, .int 2], [.int 1, .int 3], [.int 4, .int 2], [.int 1, .int 2]] =
        .ok table ∧
      (FactSource.table table).rows [some (.int 1), some (.int 2), some (.int 9)] =
        .listed [[.int 1, .int 2], [.int 1, .int 2]] ∧ 1 < 2 ∧
      ∃ values, (FactSource.table table).columnValues 1 = some values ∧
        values.contains (.int 3) = true := by
  obtain ⟨table, made⟩ : ∃ table, ofRows 2 [[.int 1, .int 2], [.int 1, .int 3],
    [.int 4, .int 2], [.int 1, .int 2]] = .ok table := ⟨_, rfl⟩
  obtain ⟨lookup, columns⟩ := (ofRows_filters 2 _).2.2 table made
  obtain ⟨values, known, contains⟩ := columns 1 (by decide)
  refine ⟨table, made, ?_, by decide, values, known, ?_⟩
  · rw [(lookup [some (.int 1), some (.int 2), some (.int 9)]).1]
    rfl
  · exact (contains _).mpr ⟨[.int 1, .int 3], by decide, rfl⟩

end FactTable

end RelationalSolver
