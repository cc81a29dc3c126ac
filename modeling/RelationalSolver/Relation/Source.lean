import RelationalSolver.Relation.Table

/-!
# Sources of rows

A source produces rows one at a time, bounds their number and may know the
values of its columns; all of this may depend on the pattern it is asked for.  A
table computes the three.  A declared source has them written down: nothing
makes it agree with the pattern, and its rows may have any length, hold
variables, or go on forever.
-/

namespace RelationalSolver

/-- Rows still to be produced: so many, or one for every number from some number
on. -/
inductive RowSupply where
  | listed (rows : List Row)
  | endless (row : Nat → Row) (number : Nat)

namespace RowSupply

/-- The integers from a start on, each in a row of its own. -/
def countingFrom (start : Int) : RowSupply := .endless (fun number => [.int (start + number)]) 0

/-- The next row and what remains. -/
def next : RowSupply → Option (Row × RowSupply)
  | .listed [] => none
  | .listed (row :: rows) => some (row, .listed rows)
  | .endless row number => some (row number, .endless row (number + 1))

end RowSupply

/-- Where the rows of a relation come from: its number of columns, the rows for a
pattern with a bound on their number, and the distinct values of a column, if the
source knows them. -/
structure FactSource where
  arity : Nat
  rows : Pattern → RowSupply
  bound : Pattern → SizeBound
  columnValues : Nat → Option TermSet

/-- Rows, a bound on their number and values of columns, as they were declared. -/
structure DeclaredSource where
  arity : Nat
  rows : RowSupply
  bound : SizeBound
  columns : List (Option TermSet)

namespace FactSource

/-- The rows of a table that match the pattern, which are counted. -/
def table (facts : FactTable) : FactSource where
  arity := facts.arity
  rows pattern := .listed (facts.matching pattern)
  bound pattern := .exact (facts.matching pattern).length
  columnValues := facts.columnValues

/-- What was declared, whatever the pattern. -/
def declared (source : DeclaredSource) : FactSource where
  arity := source.arity
  rows _ := source.rows
  bound _ := source.bound
  columnValues column := source.columns[column]?.join

/-- The rows of a source of which nothing is asked, unless they go on forever. -/
def listing (source : FactSource) : Option (List Row) :=
  match source.rows [] with
  | .listed rows => some rows
  | .endless _ _ => none

@[simp] theorem rows_table (facts : FactTable) (pattern : Pattern) :
    (table facts).rows pattern = .listed (facts.matching pattern) := rfl

@[simp] theorem bound_table (facts : FactTable) (pattern : Pattern) :
    (table facts).bound pattern = .exact (facts.matching pattern).length := rfl

@[simp] theorem listing_table (facts : FactTable) :
    (table facts).listing = some facts.rows.toList := by
  simp [listing, table, FactTable.matching, FactTable.demands, FactTable.common,
    FactTable.splitShortest]

end FactSource

/-- A named source. -/
structure Relation where
  name : String
  source : FactSource

/-- A named table of the rows. -/
def Relation.facts (name : String) (arity : Nat) (rows : List Row) :
    Except TableError Relation :=
  (Relation.mk name <| .table ·) <$> FactTable.ofRows arity rows

/-- Number of columns. -/
def Relation.arity (relation : Relation) : Nat := relation.source.arity

end RelationalSolver
