import RelationalSolver.SizeBound
import RelationalSolver.TermSet

/-!
# Tables of facts

A table holds rows of ground terms and, for every column, the rows in which each
value stands.  A look-up goes through the rows of the rarest value asked for and looks
for each of them among the rows of the other values.
-/

namespace RelationalSolver

/-- One row of a relation. -/
abbrev Row := List Term

/-- What is asked of each column: a value, or nothing. -/
abbrev Pattern := List (Option Term)

/-- Why rows do not make a table. -/
inductive TableError where
  | wrongLength (row found expected : Nat)
  | notGround (row column : Nat)
deriving DecidableEq

/-- What is wrong with the row, counted from zero. -/
def TableError.message : TableError → String
  | .wrongLength row found expected =>
      s!"row {row} has {found} columns, expected {expected}"
  | .notGround row column => s!"row {row} column {column} is not ground"

/-- For each value of a column, the numbers of its rows in increasing order. -/
structure ColumnIndex where
  entries : Std.TreeMap Term (Array Nat)

namespace ColumnIndex

/-- The index of a column without rows. -/
def empty : ColumnIndex := ⟨∅⟩

/-- The numbers of the rows in which a value stands. -/
def rowsOf (index : ColumnIndex) (value : Term) : Array Nat := index.entries.getD value #[]

/-- Note that a value stands in a row. -/
def record (index : ColumnIndex) (value : Term) (row : Nat) : ColumnIndex :=
  ⟨index.entries.alter value fun rows => some ((rows.getD #[]).push row)⟩

/-- The distinct values of the column. -/
def values (index : ColumnIndex) : TermSet := .ofList index.entries.keys

@[simp] theorem rowsOf_empty (value : Term) : empty.rowsOf value = #[] := by
  simp [empty, rowsOf]

theorem rowsOf_record (index : ColumnIndex) (value other : Term) (row : Nat) :
    (index.record value row).rowsOf other =
      if value = other then (index.rowsOf value).push row else index.rowsOf other := by
  unfold record rowsOf
  rw [Std.TreeMap.getD_alter]
  simp [Std.TreeMap.getD_eq_getD_getElem?]

@[simp] theorem contains_values_empty (value : Term) : empty.values.contains value = false := by
  rw [Bool.eq_false_iff]
  simp [empty, values]

@[simp] theorem contains_values_record (index : ColumnIndex) (value other : Term) (row : Nat) :
    (index.record value row).values.contains other = true ↔
      value = other ∨ index.values.contains other = true := by
  by_cases same : value = other <;> simp [record, values, Std.TreeMap.mem_alter, same]

end ColumnIndex

/-- Rows of ground terms with an index for every column. -/
structure FactTable where
  arity : Nat
  rows : Array Row
  columns : List ColumnIndex

namespace FactTable

/-- A table without rows. -/
def empty (arity : Nat) : FactTable := ⟨arity, #[], List.replicate arity .empty⟩

/-- Add a row at the end and to the index of every column. -/
def push (table : FactTable) (row : Row) : FactTable :=
  let number := table.rows.size
  { table with
    rows := table.rows.push row
    columns := List.zipWith (fun index value => index.record value number) table.columns row }

/-- A row fits if it has one ground term for every column. -/
def checkRow (arity number : Nat) (row : Row) : Except TableError Unit :=
  if row.length ≠ arity then throw (.wrongLength number row.length arity)
  else
    match row.findIdx? (fun t => !t.isGround) with
    | some column => throw (.notGround number column)
    | none => pure ()

/-- The table of the rows, in their order; the first row that does not fit is
the error. -/
def ofRows (arity : Nat) (rows : List Row) : Except TableError FactTable :=
  rows.foldlM (fun table row => do
    checkRow arity table.rows.size row
    pure (table.push row)) (empty arity)

/-- Number of rows. -/
def size (table : FactTable) : Nat := table.rows.size

/-- For each column that the pattern asks about, the rows with the value. -/
def demands (table : FactTable) (pattern : Pattern) : List (Array Nat) :=
  (List.zip table.columns pattern).filterMap fun (index, value) =>
    value.map index.rowsOf

/-- The shortest of the lists, the first one among equals, and the others. -/
def splitShortest : List (Array Nat) → Option (Array Nat × List (Array Nat))
  | [] => none
  | rows :: rest =>
      match splitShortest rest with
      | some (best, others) =>
          if best.size < rows.size then some (best, rows :: others) else some (rows, rest)
      | none => some (rows, [])

/-- The rows that stand in all of the lists, by binary search for those of the shortest
list in the others.  Without a list there is nothing to go by. -/
def common (lists : List (Array Nat)) : Option (List Nat) :=
  (splitShortest lists).map fun (best, others) =>
    best.toList.filter fun row => others.all (·.binSearchContains row (· < ·))

/-- The rows that agree with the pattern, in table order. -/
def matching (table : FactTable) (pattern : Pattern) : List Row :=
  match common (table.demands pattern) with
  | none => table.rows.toList
  | some numbers => numbers.filterMap (table.rows[·]?)

/-- The distinct values of a column. -/
def columnValues (table : FactTable) (column : Nat) : Option TermSet :=
  (table.columns[column]?).map ColumnIndex.values

end FactTable

end RelationalSolver
